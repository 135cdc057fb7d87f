import TwinRom.Json.Fault
import TwinRom.Rom.Format
import TwinRom.Text.Numeral
import TwinRom.Text.Utf8

/-!
# Errors of loading an image

Why a file is not an image, with the wording in one place.
-/

namespace TwinRom

/-- Why a row of hexadecimal digits is no row of bytes. -/
inductive HexFault where
  /-- The last digit has no partner. -/
  | oddLength
  /-- A byte of the text is no digit. -/
  | badDigit (byte : UInt8) (index : Nat)
  deriving DecidableEq

/-- The wording of a fault. The byte is shown as the character with its number. -/
def HexFault.message : HexFault → String
  | oddLength => "Odd number of digits"
  | badDigit byte index =>
    let shown := String.ofList (Text.quotedBy '\'' [Char.ofNat byte.toNat])
    s!"Invalid character {shown} at position {index}"

/-- The two streams of an image. -/
inductive StreamName where
  | instruction
  | data
  deriving DecidableEq

/-- A stream, as a message names it. -/
def StreamName.name : StreamName → String
  | instruction => "instruction"
  | data => "data"

/-- Why a file is not an image. -/
inductive LoadError where
  /-- The file is not a text. -/
  | notText (fault : Utf8.Fault)
  /-- The file is not the JSON of an image. -/
  | json (fault : Json.Fault)
  /-- A line is no row of hexadecimal bytes. -/
  | hex (fault : HexFault)
  /-- A word on a line is no byte. -/
  | badByte (line : Nat) (token : Text)
  /-- A binary file has the wrong size. -/
  | binarySize (got : Nat)
  /-- A stream is missing. -/
  | missingStream (stream : StreamName)
  /-- Files in this format cannot be read. -/
  | notLoadable (format : Format)
  deriving DecidableEq

/-- The wording of an error. -/
def LoadError.message : LoadError → String
  | notText fault => s!"image is not valid UTF-8: {fault.message}"
  | json fault => s!"bad JSON image: {fault.message}"
  | hex fault => s!"bad hex image: {fault.message}"
  | badByte line token => s!"line {line}: bad byte \"{String.ofList token}\""
  | binarySize got => s!"binary image must be 512 bytes, got {got}"
  | missingStream stream => s!"image has no {stream.name} stream"
  | notLoadable format => s!"{format.name} images cannot be loaded"

end TwinRom
