import TwinRom.Json.Streams
import TwinRom.Rom.LoadError

/-!
# JSON images

An image as an object with the members `instructions` and `data`, each an array of all 256 bytes
of its stream.
-/

namespace TwinRom.JsonText

/-- Bytes as an array of numbers. -/
def array (bytes : List UInt8) : Text :=
  '[' :: [','].intercalate (bytes.map fun b => Text.decimal b.toNat) ++ [']']

/-- A member of an object. -/
def member (field : Json.Field) (bytes : List UInt8) : Text :=
  '"' :: field.name.toList ++ '"' :: ':' :: array bytes

/-- The bytes of an image as an object. -/
def render (x : Image) : Text :=
  '\x7b' :: member .instructions x.instructions.toList ++
    ',' :: member .data x.data.toList ++ ['\x7d', '\n']

/-- The streams of an image. -/
def read (t : Text) : Except LoadError Streams := (Json.streams t).mapError LoadError.json

end TwinRom.JsonText
