import TwinRom.Rom.Image
import TwinRom.Text.Numeral

/-!
# Listings

An image as one row for each position, with its opcode, its data byte and what they do.
-/

namespace TwinRom.Listing

/-- The line above the rows. -/
def header : Text := "pos  op  data".toList

/-- What a cell does. A load of the ALU's function names the function. -/
def remark (opcode data : UInt8) : String :=
  match Opcode.describe? opcode with
  | some description =>
    if opcode = Opcode.loadR5 then
      match AluFunction.ofSelector? data with
      | some function => s!"{description} ({function.name})"
      | none => s!"{description} (unknown alu function)"
    else description
  | none => "reserved"

/-- One row. -/
def row (position : Nat) (opcode data : UInt8) : Text :=
  Text.padLeft 3 (Text.decimal position) ++ [' ', ' '] ++ Text.hexByte Text.upperDigit opcode ++
    [' ', ' '] ++ Text.hexByte Text.upperDigit data ++ List.replicate 4 ' ' ++
    (remark opcode data).toList

/-- The used positions of an image. -/
def render (x : Image) : Text :=
  header ++ '\n' :: ((x.usedInstructions.zip x.usedData).zipIdx.flatMap fun p =>
    row p.2 p.1.1 p.1.2 ++ ['\n'])

end TwinRom.Listing
