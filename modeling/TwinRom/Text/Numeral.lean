import TwinRom.Text.Basic

/-!
# Numerals

Numbers as texts, read and written.

`Text.byte?` reads a byte in a given radix and refuses anything that is not one.
`Text.clampedInt?` reads a signed decimal and clamps it to 64 bits: the scan runs from left to
right and the first problem decides, so a digit that leaves the range ends the scan with the
nearest bound, whatever follows it. `Text.decimal` and `Text.hexByte` write.
-/

namespace TwinRom.Text

/-! ## Digits -/

/-- The value of a digit, `0` to `9` and then `a` to `f` in either case. -/
def digitValue? (c : Char) : Option Nat :=
  if '0' ≤ c ∧ c ≤ '9' then some (c.toNat - '0'.toNat)
  else if 'a' ≤ c ∧ c ≤ 'f' then some (c.toNat - 'a'.toNat + 10)
  else if 'A' ≤ c ∧ c ≤ 'F' then some (c.toNat - 'A'.toNat + 10)
  else none

/-- The value of a digit below `radix`. -/
def digit? (radix : Nat) (c : Char) : Option Nat :=
  (digitValue? c).filter fun d => decide (d < radix)

/-- The digit with the value `d`, hexadecimal digits in upper case. -/
def upperDigit (d : Nat) : Char :=
  "0123456789ABCDEF".toList.getD d '0'

/-- The digit with the value `d`, hexadecimal digits in lower case. -/
def lowerDigit (d : Nat) : Char :=
  "0123456789abcdef".toList.getD d '0'

theorem digit?_upperDigit : ∀ d < 16, digit? 16 (upperDigit d) = some d := by decide

theorem digit?_lowerDigit : ∀ d < 16, digit? 16 (lowerDigit d) = some d := by decide

/-! ## Reading -/

/-- Reads digits onto the number read so far. -/
def natFrom? (radix : Nat) : Nat → Text → Option Nat
  | n, [] => some n
  | n, c :: cs =>
    match digit? radix c with
    | some d => natFrom? radix (n * radix + d) cs
    | none => none

/-- The number written by a non-empty row of digits. -/
def nat? (radix : Nat) : Text → Option Nat
  | [] => none
  | c :: cs => natFrom? radix 0 (c :: cs)

/-- The text after one leading plus sign, or the whole text if it has none. -/
def dropPlus : Text → Text
  | '+' :: cs => cs
  | cs => cs

/-- The byte written by a text: at most one plus sign, then digits, with any number of leading
zeros and a value up to 255. -/
def byte? (radix : Nat) (t : Text) : Option UInt8 :=
  match nat? radix (dropPlus t) with
  | some n => if n < 256 then some (UInt8.ofNat n) else none
  | none => none

/-- Reads decimal digits onto the magnitude read so far. The scan stops at the first character
that is not a digit, with nothing, and at the first digit that takes the magnitude above
`limit`, with `limit`. -/
def clampedFrom? (limit : Nat) : Nat → Text → Option Nat
  | n, [] => some n
  | n, c :: cs =>
    match digit? 10 c with
    | some d => if n * 10 + d ≤ limit then clampedFrom? limit (n * 10 + d) cs else some limit
    | none => none

/-- The magnitude of a non-empty row of decimal digits, clamped to `limit`. -/
def clampedNat? (limit : Nat) : Text → Option Nat
  | [] => none
  | c :: cs => clampedFrom? limit 0 (c :: cs)

/-- The greatest integer of 64 bits with a sign. -/
def greatest : Nat := 9223372036854775807

/-- The integer written by at most one sign and decimal digits, clamped to 64 bits. -/
def clampedInt? : Text → Option Int
  | '+' :: cs => (clampedNat? greatest cs).map Int.ofNat
  | '-' :: cs => (clampedNat? (greatest + 1) cs).map fun n => -Int.ofNat n
  | cs => (clampedNat? greatest cs).map Int.ofNat

/-! ## Writing -/

/-- A number in decimal. -/
def decimal (n : Nat) : Text := Nat.toDigits 10 n

/-- The two digits of a byte. -/
def hexByte (digit : Nat → Char) (b : UInt8) : Text :=
  [digit (b.toNat / 16), digit (b.toNat % 16)]

@[simp] theorem length_hexByte (digit : Nat → Char) (b : UInt8) :
    (hexByte digit b).length = 2 := rfl

/-- A text filled up with spaces on the left to a width. -/
def padLeft (width : Nat) (t : Text) : Text := t.leftpad width ' '

/-- A text filled up with spaces on the right to a width. -/
def padRight (width : Nat) (t : Text) : Text := t.rightpad width ' '

end TwinRom.Text
