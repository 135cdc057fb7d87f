import TwinRom.Source.Operand

/-!
# Faults

Why a source line is rejected. A fault is a cause; `Fault.message` is the only place that words
it. A `LineError` adds the number of the line, where there is one.
-/

namespace TwinRom

/-- A reason to reject a line or a program. -/
inductive Fault where
  /-- The line does not split into tokens. -/
  | malformed (expected : String)
  /-- No instruction has this name. -/
  | unknownInstruction (name : Text)
  /-- The instruction takes a different number of operands. -/
  | arityMismatch (name : Text) (expected got : Nat)
  /-- The token is no operand. -/
  | invalidOperand (token : Text)
  /-- The number of an operand exceeds the bound of its kind. -/
  | outOfRange (kind : Operand.Kind) (value : Int) (bound : Nat)
  /-- The instruction takes no RAM cells. -/
  | addressNotSupported (name : Text)
  /-- The instruction has no encoding for operands of these kinds. -/
  | unsupportedShape (name : Text) (shape : String)
  /-- No ALU input belongs to this operand position. -/
  | invalidSlot (index : Nat)
  /-- The program would need more positions than the ROM has. -/
  | romOverflow (needed : Nat)
  /-- The opcode at a position is not defined. -/
  | invalidOpcode (position : Nat) (opcode : UInt8)
  deriving DecidableEq

/-- The wording of a fault. -/
def Fault.message : Fault → String
  | malformed expected => s!"syntax error: {expected}"
  | unknownInstruction name => s!"unknown instruction \"{String.ofList name}\""
  | arityMismatch name expected got =>
    s!"\"{String.ofList name}\" expects {expected} operand(s), got {got}"
  | invalidOperand token => s!"invalid operand \"{String.ofList token}\""
  | outOfRange kind value bound => s!"{kind.name} {value} out of range (0-{bound})"
  | addressNotSupported name => s!"\"{String.ofList name}\" does not accept RAM address operands"
  | unsupportedShape name shape =>
    s!"\"{String.ofList name}\" has no encoding for operands ({shape})"
  | invalidSlot index => s!"internal error: operand slot {index} has no ALU input register"
  | romOverflow needed => s!"program needs {needed} instruction bytes, the ROM holds 256"
  | invalidOpcode position opcode =>
    let digits := String.ofList (Text.hexByte Text.lowerDigit opcode)
    s!"invalid opcode 0x{digits} at position {position}"

/-- A fault and the line it stands on, if it belongs to one. -/
structure LineError where
  /-- The number of the line, counted from one. -/
  line : Option Nat
  /-- The cause. -/
  fault : Fault
  deriving DecidableEq

/-- The wording of an error, with its line in front. -/
def LineError.message (e : LineError) : String :=
  match e.line with
  | some line => s!"line {line}: {e.fault.message}"
  | none => e.fault.message

end TwinRom
