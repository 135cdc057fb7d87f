import TwinRom.Text.Numeral
import TwinRom.Text.Shortest

/-!
# JSON numbers

A numeral is a sign, digits, perhaps a fraction and perhaps an exponent (`Numeral.scan?`). Its value
is an integer if it is written as one and fits into 64 bits, and a floating point number
otherwise (`Numeral.value?`).

A floating point value is computed from a significand and a power of ten. The significand takes
digits from the left as long as it stays below `2 ^ 64`; the digits it drops before the decimal
point count into the power of ten. It is then rounded and scaled by the rounded power, in steps
of at most `10 ^ 308`, so the result can be off by the last place.
-/

namespace TwinRom.Json

/-! ## Scanning -/

/-- A number as it is written. -/
structure Numeral where
  /-- Whether a minus sign stands in front. -/
  negative : Bool
  /-- The digits before the decimal point. -/
  whole : Text
  /-- The digits after the decimal point, if there is one. -/
  fraction : Option Text
  /-- Whether the exponent is negative and its digits, if there is one. -/
  exponent : Option (Bool × Text)
  deriving DecidableEq

/-- Why a number cannot be scanned. -/
inductive Numeral.Defect where
  /-- A leading zero, or no digit where one is due. -/
  | invalid
  /-- The text ends where a digit is due. -/
  | cutOff
  deriving DecidableEq

namespace Numeral

/-- Splits off at least one digit. -/
def digits (t : Text) : Except Defect (Text × Text) :=
  match t with
  | [] => .error .cutOff
  | c :: cs =>
    if c.isDigit then .ok (c :: cs.takeWhile Char.isDigit, cs.dropWhile Char.isDigit)
    else .error .invalid

/-- Splits off the digits before the decimal point. A leading zero stands alone. -/
def scanWhole (t : Text) : Except Defect (Text × Text) :=
  match t with
  | '0' :: c :: cs => if c.isDigit then .error .invalid else .ok (['0'], c :: cs)
  | t => digits t

/-- Splits off a decimal point with the digits after it, if there is one. -/
def scanFraction (t : Text) : Except Defect (Option Text × Text) :=
  match t with
  | '.' :: cs => (digits cs).map fun r => (some r.1, r.2)
  | t => .ok (none, t)

/-- Splits off the sign of an exponent: whether it is negative. -/
def scanSign : Text → Bool × Text
  | '+' :: cs => (false, cs)
  | '-' :: cs => (true, cs)
  | cs => (false, cs)

/-- Splits off an exponent, if there is one. -/
def scanExponent (t : Text) : Except Defect (Option (Bool × Text) × Text) :=
  match t with
  | c :: cs =>
    if c = 'e' ∨ c = 'E' then
      let (negative, rest) := scanSign cs
      (digits rest).map fun r => (some (negative, r.1), r.2)
    else .ok (none, t)
  | [] => .ok (none, [])

/-- Splits off the minus sign of a number: whether there is one. -/
def scanMinus : Text → Bool × Text
  | '-' :: cs => (true, cs)
  | cs => (false, cs)

/-- Splits a number off a text that starts with a minus sign or a digit. -/
def scan (t : Text) : Except Defect (Numeral × Text) := do
  let (negative, t) := scanMinus t
  let (whole, t) ← scanWhole t
  let (fraction, t) ← scanFraction t
  let (exponent, t) ← scanExponent t
  .ok (⟨negative, whole, fraction, exponent⟩, t)

/-! ### What is left is shorter -/

theorem length_dropWhile_le (p : Char → Bool) (t : Text) : (t.dropWhile p).length ≤ t.length :=
  (List.dropWhile_sublist p).length_le

theorem digits_lt {t : Text} {r : Text × Text} (h : digits t = .ok r) :
    r.2.length < t.length := by
  unfold digits at h
  split at h
  next => cases h
  next c cs =>
    split at h
    next =>
      obtain rfl := Except.ok.inj h
      exact Nat.lt_succ_of_le (length_dropWhile_le _ cs)
    next => cases h

theorem scanWhole_lt {t : Text} {r : Text × Text} (h : scanWhole t = .ok r) :
    r.2.length < t.length := by
  unfold scanWhole at h
  split at h
  next c cs =>
    split at h
    next => cases h
    next =>
      obtain rfl := Except.ok.inj h
      exact Nat.lt_succ_self _
  next => exact digits_lt h

theorem scanFraction_le {t : Text} {r : Option Text × Text} (h : scanFraction t = .ok r) :
    r.2.length ≤ t.length := by
  unfold scanFraction at h
  split at h
  next cs =>
    cases hd : digits cs with
    | error e => simp [hd, Except.map] at h
    | ok d =>
      simp only [hd, Except.map, Except.ok.injEq] at h
      subst h
      have := digits_lt hd
      exact Nat.le_succ_of_le (Nat.le_of_lt this)
  next =>
    obtain rfl := Except.ok.inj h
    exact Nat.le_refl _

theorem scanSign_le (t : Text) : (scanSign t).2.length ≤ t.length := by
  unfold scanSign
  split <;> simp

theorem scanExponent_le {t : Text} {r : Option (Bool × Text) × Text}
    (h : scanExponent t = .ok r) : r.2.length ≤ t.length := by
  unfold scanExponent at h
  split at h
  next c cs =>
    split at h
    next =>
      cases hd : digits (scanSign cs).2 with
      | error e => simp [hd, Except.map] at h
      | ok d =>
        simp only [hd, Except.map, Except.ok.injEq] at h
        subst h
        have h1 := digits_lt hd
        have h2 := scanSign_le cs
        simp only [List.length_cons]
        omega
    next =>
      obtain rfl := Except.ok.inj h
      exact Nat.le_refl _
  next =>
    obtain rfl := Except.ok.inj h
    exact Nat.le_refl _

theorem scanMinus_le (t : Text) : (scanMinus t).2.length ≤ t.length := by
  unfold scanMinus
  split <;> simp

/-- A number takes at least one character. -/
theorem scan_lt {t : Text} {r : Numeral × Text} (h : scan t = .ok r) :
    r.2.length < t.length := by
  simp only [scan, bind, Except.bind] at h
  split at h
  next => cases h
  next w hw =>
    split at h
    next => cases h
    next f hf =>
      split at h
      next => cases h
      next e he =>
        obtain rfl := Except.ok.inj h
        have h1 := scanWhole_lt hw
        have h2 := scanFraction_le hf
        have h3 := scanExponent_le he
        have h4 := scanMinus_le t
        simp only
        omega

/-! ## Values -/

/-- The value of a number. -/
inductive Value where
  /-- A number that is written as an integer and fits into 64 bits. -/
  | integer (value : Int)
  /-- Any other number, as the shortest decimal of its floating point value. -/
  | real (decimal : Text)
  deriving DecidableEq

/-- The significand with one more digit, if it stays below `2 ^ 64`. -/
def grow? (significand : Nat) (c : Char) : Option Nat :=
  let n := significand * 10 + (c.toNat - '0'.toNat)
  if n < UInt64.size then some n else none

/-- Takes the digits before the decimal point into the significand, and counts those that no
longer fit. -/
def takeWhole (significand : Nat) : Text → Nat × Nat
  | [] => (significand, 0)
  | c :: cs =>
    match grow? significand c with
    | some n => takeWhole n cs
    | none => (significand, cs.length + 1)

/-- Takes the digits after the decimal point into the significand, and counts those that fit. -/
def takeFraction (significand : Nat) : Text → Nat × Nat
  | [] => (significand, 0)
  | c :: cs =>
    match grow? significand c with
    | some n =>
      let (s, count) := takeFraction n cs
      (s, count + 1)
    | none => (significand, 0)

/-- The number written by some digits. -/
def natOf (digits : Text) : Nat := (Text.natFrom? 10 0 digits).getD 0

/-- A power of ten up to `10 ^ 308`, rounded. -/
def tenToThe (k : Nat) : Float := Float.ofScientific 1 false k

/-- Divides by `10 ^ k`, in steps of at most `10 ^ 308` and only until nothing is left. -/
def divideByPower (x : Float) (k : Nat) : Float :=
  if k ≤ 308 then x / tenToThe k
  else if x == 0 then x
  else divideByPower (x / tenToThe 308) (k - 308)
termination_by k
decreasing_by omega

/-- The significand scaled by `10 ^ e`, unless that is too large. -/
def scale? (significand : Nat) (e : Int) : Option Float :=
  let x := Float.ofNat significand
  if 0 ≤ e then
    if e ≤ 308 then
      let y := x * tenToThe e.toNat
      if y.isInf then none else some y
    else if x == 0 then some x
    else none
  else some (divideByPower x (-e).toNat)

/-- The greatest exponent that is taken for what it says. -/
def exponentLimit : Nat := 2147483647

/-- The floating point value with significand `s`, scaled by the power `e` of ten and by an
exponent. An exponent over the limit means zero or a number that is too large. -/
def realWith? (s : Nat) (e : Int) : Option (Bool × Text) → Option Float
  | none => scale? s e
  | some (negative, digits) =>
    let x := natOf digits
    if exponentLimit < x then if s ≠ 0 ∧ negative = false then none else some 0
    else scale? s (if negative then e - Int.ofNat x else e + Int.ofNat x)

/-- The floating point value of a number without its sign. -/
def real? (n : Numeral) : Option Float :=
  let (s, dropped) := takeWhole 0 n.whole
  let (s, taken) := takeFraction s (n.fraction.getD [])
  realWith? s (Int.ofNat dropped - Int.ofNat taken) n.exponent

/-- A number's integer value, if it has one. A negative zero has none. -/
def integer? (n : Numeral) : Option Int :=
  if n.fraction.isSome || n.exponent.isSome then none
  else
    let value := natOf n.whole
    if n.negative then
      if 0 < value ∧ value ≤ UInt64.size / 2 then some (-Int.ofNat value) else none
    else if value < UInt64.size then some (Int.ofNat value) else none

/-- The value of a number, unless it is too large. -/
def value? (n : Numeral) : Option Value :=
  match n.integer? with
  | some value => some (.integer value)
  | none =>
    (real? n).map fun x => .real (Text.shortestDecimal (if n.negative then -x else x))

end Numeral

end TwinRom.Json
