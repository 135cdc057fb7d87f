import TwinRom.Text.Numeral

/-!
# Operands

An operand is a register `r0` to `r7`, a RAM cell `a0` to `a255` or an immediate byte. The kinds
differ in the letter that opens the text and in the greatest number they allow
(`Operand.Kind.bound`).
-/

namespace TwinRom

/-- The kinds of operands. -/
inductive Operand.Kind where
  | register
  | address
  | immediate
  deriving DecidableEq, Repr

/-- The greatest number of a kind. -/
def Operand.Kind.bound : Operand.Kind → UInt8
  | .register => 7
  | .address => 255
  | .immediate => 255

/-- The name of a kind. -/
def Operand.Kind.name : Operand.Kind → String
  | .register => "register"
  | .address => "address"
  | .immediate => "immediate"

/-- An operand of an instruction. -/
inductive Operand where
  /-- A register. -/
  | register (number : UInt8)
  /-- A RAM cell, which is fetched before the ALU can use it. -/
  | address (cell : UInt8)
  /-- A byte. -/
  | immediate (value : UInt8)
  deriving DecidableEq, Repr

namespace Operand

/-- The kind of an operand. -/
def kind : Operand → Kind
  | register _ => .register
  | address _ => .address
  | immediate _ => .immediate

/-- The number in an operand. -/
def value : Operand → UInt8
  | register n => n
  | address n => n
  | immediate n => n

/-- The operand of a kind with a number. -/
def ofKind : Kind → UInt8 → Operand
  | .register, n => register n
  | .address, n => address n
  | .immediate, n => immediate n

@[simp] theorem ofKind_kind_value (o : Operand) : ofKind o.kind o.value = o := by
  cases o <;> rfl

/-- An operand as a source text writes it. -/
def toText : Operand → Text
  | register n => 'r' :: Text.decimal n.toNat
  | address n => 'a' :: Text.decimal n.toNat
  | immediate n => Text.decimal n.toNat

/-- The byte of an immediate operand. -/
def immediate? : Operand → Option UInt8
  | immediate n => some n
  | _ => none

/-- The kinds of some operands, for a message. -/
def shape : List Operand → String
  | [] => "none"
  | operands => ", ".intercalate (operands.map fun o => o.kind.name)

end Operand

end TwinRom
