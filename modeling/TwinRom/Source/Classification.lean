import TwinRom.Source.Fault

/-!
# Classification of operands

`Operand.classify` reads an operand token. The first letter gives the kind, in either case: `r`
for a register, `a` for a RAM cell, anything else for an immediate. Registers and cells are
followed by plain digits; an immediate may carry a sign. A number that can be read is then held
against the bound of its kind, and one too long to be read stands for the nearest 64-bit number.
-/

namespace TwinRom.Operand

/-- The kind that a lower-case token announces, and its digits. -/
def split : Text → Kind × Text
  | 'r' :: digits => (.register, digits)
  | 'a' :: digits => (.address, digits)
  | digits => (.immediate, digits)

/-- The number that some digits write for a kind. Only an immediate may have a sign. -/
def number? (kind : Kind) (digits : Text) : Option Int :=
  match kind with
  | .immediate => Text.clampedInt? digits
  | _ => if digits.all Char.isDigit then Text.clampedInt? digits else none

/-- The operand of a kind with a number, if the number is in range. -/
def bounded (kind : Kind) (number : Int) : Except Fault Operand :=
  if 0 ≤ number ∧ number ≤ kind.bound.toNat then .ok (ofKind kind (UInt8.ofNat number.toNat))
  else .error (.outOfRange kind number kind.bound.toNat)

/-- Reads an operand token. -/
def classify (token : Text) : Except Fault Operand :=
  let (kind, digits) := split (Text.lower token)
  match number? kind digits with
  | some number => bounded kind number
  | none => .error (.invalidOperand token)

/-- The kind of an operand is the one it was bounded by, and its number is within the bound. -/
theorem bounded_ok {kind : Kind} {number : Int} {o : Operand} (h : bounded kind number = .ok o) :
    o.kind = kind ∧ o.value ≤ kind.bound := by
  unfold bounded at h
  split at h
  next hn =>
    obtain rfl := Except.ok.inj h
    have hle : number.toNat ≤ kind.bound.toNat := by omega
    have hlt : kind.bound.toNat < 256 := kind.bound.toNat_lt
    constructor
    · cases kind <;> rfl
    · have hv : (ofKind kind (UInt8.ofNat number.toNat)).value = UInt8.ofNat number.toNat := by
        cases kind <;> rfl
      rw [hv, UInt8.le_iff_toNat_le, UInt8.toNat_ofNat_of_lt' (Nat.lt_of_le_of_lt hle hlt)]
      exact hle
  next => cases h

end TwinRom.Operand
