import TwinRom.Source.Classification
import TwinRom.Source.Encoding
import TwinRom.Source.Line

/-!
# Statements

A statement is a mnemonic with operands, read from the tokens of a line (`Statement.ofTokens`)
and turned into code (`Statement.code`). The order of the checks is the order of the errors: the
name, the number of operands, each operand from left to right, then what the instruction can do
with them.

`Line.code` is the code of one line on its own; a line without tokens has none.
-/

namespace TwinRom

/-- An instruction with its operands. -/
structure Statement where
  /-- The instruction. -/
  mnemonic : Mnemonic
  /-- The operands in order. -/
  operands : List Operand
  deriving DecidableEq

namespace Statement

/-- Reads a statement from the name of an instruction and its operand tokens. -/
def ofTokens (name : Text) (tokens : List Text) : Except Fault Statement :=
  match Mnemonic.ofText? name with
  | some m => do
    checkArity m tokens.length
    let operands ← tokens.mapM Operand.classify
    .ok ⟨m, operands⟩
  | none => .error (.unknownInstruction name)

/-- The operands of a statement in their places. -/
def slots (s : Statement) : Except Fault (List Slot) :=
  s.operands.zipIdx.mapM fun p => Slot.make s.mnemonic p.2 p.1

/-- The code of a statement. -/
def code (s : Statement) : Except Fault Fragment := do
  encode s.mnemonic (← s.slots)

end Statement

/-- The code of one line. -/
def Line.code (text : Text) : Except Fault Fragment := do
  match ← Line.tokens text with
  | [] => .ok .empty
  | name :: operands => (← Statement.ofTokens name operands).code

end TwinRom
