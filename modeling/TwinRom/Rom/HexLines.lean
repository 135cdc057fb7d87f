import TwinRom.Rom.Image
import TwinRom.Rom.LoadError

/-!
# Lines of hexadecimal digits

An image as two lines of digits, one for each stream, two digits to a byte. A reader takes the
first two lines that are not blank. An image without positions is two empty lines, so a text
without any filled line is that image.

The digits are looked for among the bytes of the line, and positions in a fault count bytes.
-/

namespace TwinRom.HexLines

/-! ## Writing -/

/-- One stream. -/
def line (stream : List UInt8) : Text := stream.flatMap (Text.hexByte Text.upperDigit)

/-- The used bytes of an image as two lines. -/
def render (x : Image) : Text := line x.usedInstructions ++ '\n' :: (line x.usedData ++ ['\n'])

/-! ## Reading -/

/-- The value of the digit at `index`. -/
def digit (b : UInt8) (index : Nat) : Except HexFault Nat :=
  match Text.digit? 16 (Char.ofNat b.toNat) with
  | some d => .ok d
  | none => .error (.badDigit b index)

/-- The bytes that pairs of digits write, the first digit standing at `index`. -/
def decodeFrom (index : Nat) : List UInt8 → Except HexFault (List UInt8)
  | [] => .ok []
  | [_] => .error .oddLength
  | a :: b :: digits => do
    let high ← digit a index
    let low ← digit b (index + 1)
    let bytes ← decodeFrom (index + 2) digits
    .ok (UInt8.ofNat (high * 16 + low) :: bytes)

/-- The bytes that digits write. Their number is looked at first. -/
def decode (digits : List UInt8) : Except HexFault (List UInt8) :=
  if digits.length % 2 = 1 then .error .oddLength else decodeFrom 0 digits

/-- The bytes on a line. -/
def readLine (t : Text) : Except LoadError (List UInt8) :=
  (decode (Utf8.encode t)).mapError LoadError.hex

/-- The lines that are not blank, without the blanks around them. -/
def filledLines (t : Text) : List Text :=
  ((Text.lines t).map Text.trim).filter fun line => !line.isEmpty

/-- The streams of an image. -/
def read (t : Text) : Except LoadError Streams :=
  match filledLines t with
  | [] => .ok ⟨[], []⟩
  | first :: others => do
    let instructions ← readLine first
    match others with
    | [] => .error (.missingStream .data)
    | second :: _ => .ok ⟨instructions, ← readLine second⟩

end TwinRom.HexLines
