/-!
# ALU functions

The eight functions of the arithmetic unit. `AluFunction.selector` is the byte that selects a
function, and `AluFunction.ofSelector?` reads it back.
-/

namespace TwinRom

/-- A function of the ALU. -/
inductive AluFunction where
  | pass
  | sub
  | add
  | mul
  | and
  | xor
  | or
  | not
  deriving DecidableEq, Repr

namespace AluFunction

/-- The functions in the order of their selectors. -/
def all : List AluFunction := [pass, sub, add, mul, and, xor, or, not]

/-- The byte that selects a function. -/
def selector : AluFunction → UInt8
  | pass => 0
  | sub => 1
  | add => 2
  | mul => 3
  | and => 4
  | xor => 5
  | or => 6
  | not => 7

/-- The function that a byte selects. -/
def ofSelector? (b : UInt8) : Option AluFunction := all.find? fun f => f.selector == b

@[simp] theorem ofSelector?_selector (f : AluFunction) : ofSelector? f.selector = some f := by
  cases f <;> rfl

/-- The name of a function, which is also its mnemonic. -/
def name : AluFunction → String
  | pass => "pass"
  | sub => "sub"
  | add => "add"
  | mul => "mul"
  | and => "and"
  | xor => "xor"
  | or => "or"
  | not => "not"

/-- The functions that look at their first input only. -/
def isUnary : AluFunction → Bool
  | pass => true
  | not => true
  | _ => false

/-- The number of inputs that a function looks at. -/
def arity (f : AluFunction) : Nat := if f.isUnary then 1 else 2

/-- The registers that hold the two inputs. -/
def inputs : List UInt8 := [6, 7]

theorem arity_le_two (f : AluFunction) : f.arity ≤ 2 := by
  cases f <;> decide

end AluFunction

end TwinRom
