import TwinRom.Rom.Image
import TwinRom.Rom.LoadError

/-!
# Tables

An image as two boxed columns of decimal bytes, five to a row:

    |----Instruction----|    |--------Data-------|
    |  5   6   7   5   7|    |  4   9   4   0   4|
    | 72  54  37  39    |    |  0   0   2   1    |

A reader takes every line with a digit in it, and there the first two parts between bars that
are not blank.
-/

namespace TwinRom.Table

/-! ## Writing -/

/-- The line above the rows. -/
def header : Text := "|----Instruction----|    |--------Data-------|".toList

/-- Cuts bytes into rows of five. -/
def rows (bytes : List UInt8) : List (List UInt8) :=
  match bytes with
  | [] => []
  | b :: bs => (b :: bs).take 5 :: rows ((b :: bs).drop 5)
termination_by bytes.length
decreasing_by simp only [List.length_drop, List.length_cons]; omega

/-- One byte, three characters wide. -/
def field (b : UInt8) : Text := Text.padLeft 3 (Text.decimal b.toNat)

/-- One boxed row. -/
def box (row : List UInt8) : Text :=
  '|' :: Text.padRight 19 ([' '].intercalate (row.map field)) ++ ['|']

/-- One line of the table. -/
def line (row : List UInt8 × List UInt8) : Text :=
  box row.1 ++ List.replicate 4 ' ' ++ box row.2 ++ ['\n']

/-- The used bytes of an image as a table. -/
def render (x : Image) : Text :=
  header ++ '\n' :: ((rows x.usedInstructions).zip (rows x.usedData)).flatMap line

/-! ## Reading -/

/-- The bytes in one part of a line. -/
def readPart (line : Nat) (part : Text) : Except LoadError (List UInt8) :=
  (Text.words part).mapM fun word =>
    match Text.byte? 10 word with
    | some b => .ok b
    | none => .error (.badByte line word)

/-- The parts of a line between bars that are not blank, without the blanks around them. -/
def parts (t : Text) : List Text :=
  ((t.splitOn '|').map Text.trim).filter fun part => !part.isEmpty

/-- The bytes on a line; a line without a digit has none. -/
def readLine (line : Nat) (t : Text) : Except LoadError Streams :=
  if t.any Char.isDigit then
    match parts t with
    | instructions :: data :: _ => do
      .ok ⟨← readPart line instructions, ← readPart line data⟩
    | _ => .ok ⟨[], []⟩
  else .ok ⟨[], []⟩

/-- The streams of a table. -/
def read (t : Text) : Except LoadError Streams := do
  let lines ← ((Text.lines t).zipIdx 1).mapM fun p => readLine p.2 p.1
  .ok ⟨lines.flatMap Streams.instructions, lines.flatMap Streams.data⟩

end TwinRom.Table
