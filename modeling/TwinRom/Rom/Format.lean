import TwinRom.Path

/-!
# Image formats

The formats in which an image is written, with their names and the file extensions that stand
for them.
-/

namespace TwinRom

/-- A way to write an image. -/
inductive Format where
  /-- Two boxed columns of decimal bytes. -/
  | table
  /-- One line of `0x` bytes for each stream, closed by an end marker. -/
  | markers
  /-- One line of hexadecimal digits for each stream. -/
  | hex
  /-- An object with two arrays of numbers. -/
  | json
  /-- The bytes themselves. -/
  | bin
  /-- One annotated row for each position; it cannot be read back. -/
  | listing
  deriving DecidableEq, Repr

namespace Format

/-- All formats. -/
def all : List Format := [table, markers, hex, json, bin, listing]

/-- The name of a format. -/
def name : Format → String
  | table => "table"
  | markers => "markers"
  | hex => "hex"
  | json => "json"
  | bin => "bin"
  | listing => "listing"

/-- The format with a name. -/
def ofName? (t : Text) : Option Format := all.find? fun f => f.name.toList == t

@[simp] theorem ofName?_name (f : Format) : ofName? f.name.toList = some f := by
  cases f <;> decide

/-- Whether the format is not a text. -/
def isBinary (f : Format) : Bool := f == bin

/-- The formats by file extension. -/
def extensions : List (String × Format) :=
  [("bin", bin), ("json", json), ("hex", hex), ("txt", table), ("tbl", table), ("rom", markers),
   ("lst", listing)]

/-- The format that the extension of a path stands for, in any letter case. -/
def ofPath? (path : Text) : Option Format :=
  match Path.extension? path with
  | some ext => (extensions.find? fun e => e.1.toList == Text.lower ext).map Prod.snd
  | none => none

end Format

end TwinRom
