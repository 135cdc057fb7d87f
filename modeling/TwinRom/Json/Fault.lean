import TwinRom.Text.Quoted

/-!
# Faults of JSON texts

What can be wrong with a JSON text that should hold an image, with the wording in one place.
-/

namespace TwinRom.Json

/-- A value of the wrong type, as far as it is shown. -/
inductive Found where
  | null
  | boolean (value : Bool)
  | integer (value : Int)
  /-- A number with a fraction or an exponent, or one too large for an integer. -/
  | real (decimal : Text)
  | string (content : Text)
  | sequence
  | map
  deriving DecidableEq

/-- How a value is shown in a message. -/
def Found.message : Found → String
  | null => "null"
  | boolean value => s!"boolean `{value}`"
  | integer value => s!"integer `{value}`"
  | real decimal => s!"floating point `{String.ofList decimal}`"
  | string content => s!"string {String.ofList (Text.quoted content)}"
  | sequence => "sequence"
  | map => "map"

/-- What was wanted in place of a value of the wrong type. -/
inductive Wanted where
  /-- The image as a whole. -/
  | image
  /-- A stream of the image. -/
  | stream
  /-- A byte of a stream. -/
  | byte
  deriving DecidableEq

/-- How what was wanted is named in a message. -/
def Wanted.name : Wanted → String
  | image => "struct JsonImage"
  | stream => "a sequence"
  | byte => "u8"

/-- The parts of an image. -/
inductive Field where
  | instructions
  | data
  deriving DecidableEq

/-- The key of a part. -/
def Field.name : Field → String
  | instructions => "instructions"
  | data => "data"

/-- The part with a key. -/
def Field.ofKey? (key : Text) : Option Field :=
  [instructions, data].find? fun f => f.name.toList == key

/-- What is wrong with a JSON text. -/
inductive Fault where
  /-- The text ends where a value should be. -/
  | endInValue
  /-- The text ends inside an array. -/
  | endInList
  /-- The text ends inside an object. -/
  | endInObject
  /-- The text ends inside a string. -/
  | endInString
  /-- No value starts here. -/
  | expectedValue
  /-- A misspelt `true`, `false` or `null`. -/
  | expectedIdent
  /-- A number with a leading zero or without digits where some are due. -/
  | invalidNumber
  /-- A number too large for a floating point number. -/
  | outOfRange
  /-- An element is followed by neither a comma nor a bracket. -/
  | expectedListEnd
  /-- A member is followed by neither a comma nor a brace. -/
  | expectedObjectEnd
  /-- A key is not followed by a colon. -/
  | expectedColon
  /-- A member starts with something other than a string. -/
  | keyNotString
  /-- A comma with nothing after it. -/
  | trailingComma
  /-- Something after the end. -/
  | trailingCharacters
  /-- An escape that is none. -/
  | invalidEscape
  /-- A control character in a string. -/
  | controlCharacter
  /-- A surrogate without its partner. -/
  | loneSurrogate
  /-- A leading surrogate that no escape follows. -/
  | unfinishedSurrogate
  /-- A value of the wrong type. -/
  | wrongType (found : Found) (wanted : Wanted)
  /-- An integer that is no byte. -/
  | wrongByte (value : Int)
  /-- An object without one of the parts. -/
  | missingField (field : Field)
  /-- An object with one of the parts twice. -/
  | duplicateField (field : Field)
  /-- An array with fewer than two streams. -/
  | wrongLength (length : Nat)
  deriving DecidableEq

/-- The wording of a fault. -/
def Fault.message : Fault → String
  | endInValue => "EOF while parsing a value"
  | endInList => "EOF while parsing a list"
  | endInObject => "EOF while parsing an object"
  | endInString => "EOF while parsing a string"
  | expectedValue => "expected value"
  | expectedIdent => "expected ident"
  | invalidNumber => "invalid number"
  | outOfRange => "number out of range"
  | expectedListEnd => "expected `,` or `]`"
  | expectedObjectEnd => "expected `,` or `\x7d`"
  | expectedColon => "expected `:`"
  | keyNotString => "key must be a string"
  | trailingComma => "trailing comma"
  | trailingCharacters => "trailing characters"
  | invalidEscape => "invalid escape"
  | controlCharacter => "control character (\\u0000-\\u001F) found while parsing a string"
  | loneSurrogate => "lone leading surrogate in hex escape"
  | unfinishedSurrogate => "unexpected end of hex escape"
  | wrongType found wanted => s!"invalid type: {found.message}, expected {wanted.name}"
  | wrongByte value => s!"invalid value: integer `{value}`, expected {Wanted.byte.name}"
  | missingField field => s!"missing field `{field.name}`"
  | duplicateField field => s!"duplicate field `{field.name}`"
  | wrongLength length =>
    s!"invalid length {length}, expected {Wanted.image.name} with 2 elements"

end TwinRom.Json
