import TwinRom.Rom.Image
import TwinRom.Rom.LoadError

/-!
# Streams with end markers

An image as two lines of bytes such as `0x2F`, one for each stream, each closed by the end marker
of its stream. A reader takes the first two lines that are not blank; the `0x` and the end marker
may be missing.
-/

namespace TwinRom.Markers

/-! ## Writing -/

/-- One byte. -/
def field (b : UInt8) : Text := '0' :: 'x' :: Text.hexByte Text.upperDigit b

/-- One stream with its end marker. -/
def line (stream : List UInt8) (marker : UInt8) : Text :=
  [' '].intercalate ((stream ++ [marker]).map field)

/-- The used bytes of an image as two lines. -/
def render (x : Image) : Text :=
  line x.usedInstructions Opcode.endOfInstructions ++ '\n' ::
    (line x.usedData Opcode.endOfData ++ ['\n'])

/-! ## Reading -/

/-- A word without the sign of a hexadecimal number in front of it. -/
def dropSign : Text → Text
  | '0' :: 'x' :: cs => cs
  | '0' :: 'X' :: cs => cs
  | cs => cs

/-- Bytes without an end marker behind them. -/
def dropMarker (marker : UInt8) (bytes : List UInt8) : List UInt8 :=
  if bytes.getLast? = some marker then bytes.dropLast else bytes

/-- The bytes on a line, without the end marker. -/
def readLine (marker : UInt8) (line : Nat) (t : Text) : Except LoadError (List UInt8) := do
  let bytes ← (Text.words t).mapM fun word =>
    match Text.byte? 16 (dropSign word) with
    | some b => .ok b
    | none => .error (.badByte line word)
  .ok (dropMarker marker bytes)

/-- The lines that are not blank, with their numbers. -/
def filledLines (t : Text) : List (Text × Nat) :=
  ((Text.lines t).zipIdx 1).filter fun p => !(Text.trim p.1).isEmpty

/-- The streams of an image. -/
def read (t : Text) : Except LoadError Streams :=
  match filledLines t with
  | [] => .error (.missingStream .instruction)
  | (first, n) :: others => do
    let instructions ← readLine Opcode.endOfInstructions n first
    match others with
    | [] => .error (.missingStream .data)
    | (second, n) :: _ => .ok ⟨instructions, ← readLine Opcode.endOfData n second⟩

end TwinRom.Markers
