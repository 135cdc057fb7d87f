import TwinRom.Rom.Format

/-!
# Commands

What a user can ask for, and how the words of a command line are read.

The first word names the command. After it come one file and the command's settings, in any order.
A setting is written `-f hex`, `-fhex`, `-f=hex`, `--format hex` or `--format=hex`; a value in a
word of its own does not start with a dash, unless it is just a dash. Two dashes end the settings.
A setting made twice, an empty path, an unknown word and a missing one are all refused, and
`Request.ofWords?` then gives nothing.
-/

namespace TwinRom

/-- A command with its arguments. -/
inductive Command where
  /-- Assemble a source into an image. -/
  | assemble (source : Text) (output : Option Text) (format : Option Format)
  /-- Report every error in a source. -/
  | check (source : Text)
  /-- Look for opcodes in an image that are not defined. -/
  | validate (image : Text) (origin : Option Format)
  /-- Write an image in another format. -/
  | render (image : Text) (origin : Option Format) (format : Format) (output : Option Text)
  deriving DecidableEq

/-- What a command line asks for. -/
inductive Request where
  /-- The name and number of the program. -/
  | version
  /-- A summary of the commands. -/
  | help
  /-- A command. -/
  | run (command : Command)
  deriving DecidableEq

namespace Cli

/-! ## Verbs and settings -/

/-- The word that names a command. -/
inductive Verb where
  | assemble
  | check
  | validate
  | render
  deriving DecidableEq

/-- The verb that a word names. -/
def Verb.ofWord? (word : Text) : Option Verb :=
  if word = "assemble".toList then some .assemble
  else if word = "check".toList then some .check
  else if word = "validate".toList then some .validate
  else if word = "render".toList then some .render
  else none

/-- What can be set apart from the file. -/
inductive Setting where
  /-- Where to write. -/
  | output
  /-- The format to write. -/
  | format
  /-- The format to read. -/
  | origin
  deriving DecidableEq

/-- The settings of a verb. -/
def Verb.accepts : Verb → Setting → Bool
  | assemble, .output => true
  | assemble, .format => true
  | validate, .origin => true
  | render, _ => true
  | _, _ => false

/-- The setting of a verb with a long name. -/
def Setting.ofLong? (verb : Verb) (name : Text) : Option Setting :=
  if name = "output".toList then some Setting.output |>.filter verb.accepts
  else if name = "format".toList then some Setting.format |>.filter verb.accepts
  else if name = "from".toList then some Setting.origin |>.filter verb.accepts
  else none

/-- The setting of a verb with a one-letter name. -/
def Setting.ofShort? (verb : Verb) (letter : Char) : Option Setting :=
  if letter = 'o' then some Setting.output |>.filter verb.accepts
  else if letter = 'f' then some Setting.format |>.filter verb.accepts
  else none

/-! ## Words -/

/-- What the words after a verb have given so far. -/
structure Arguments where
  file : Option Text := none
  output : Option Text := none
  format : Option Format := none
  origin : Option Format := none
  deriving DecidableEq

namespace Arguments

/-- The arguments with a file, if there is none yet. -/
def addFile (a : Arguments) (path : Text) : Option Arguments :=
  if a.file.isSome || path.isEmpty then none else some { a with file := some path }

/-- The arguments with one more setting, if it is not made yet and the value suits it. -/
def set (a : Arguments) (setting : Setting) (value : Text) : Option Arguments :=
  match setting with
  | .output =>
    if a.output.isSome || value.isEmpty then none else some { a with output := some value }
  | .format =>
    if a.format.isSome then none
    else (Format.ofName? value).map fun f => { a with format := some f }
  | .origin =>
    if a.origin.isSome then none
    else (Format.ofName? value).map fun f => { a with origin := some f }

/-- The command of a verb with these arguments. -/
def command? (a : Arguments) (verb : Verb) : Option Command :=
  a.file.map fun file =>
    match verb with
    | .assemble => .assemble file a.output a.format
    | .check => .check file
    | .validate => .validate file a.origin
    | .render => .render file a.origin (a.format.getD .table) a.output

end Arguments

/-- What a word after a verb is. -/
inductive Word where
  /-- The wish for a summary. -/
  | help
  /-- The end of the settings. -/
  | dashes
  /-- A file. -/
  | file
  /-- A setting, with its value if that is part of the word. -/
  | setting (setting : Setting) (value : Option Text)

/-- Splits a word at its first equals sign. -/
def splitValue (word : Text) : Text × Option Text :=
  match word.dropWhile (· != '=') with
  | [] => (word, none)
  | _ :: value => (word.takeWhile (· != '='), some value)

/-- The value that follows a letter in the same word; an equals sign may stand between them. -/
def attached : Text → Option Text
  | [] => none
  | '=' :: value => some value
  | value => some value

/-- What a word after a verb is, if it is anything. -/
def Word.of? (verb : Verb) : Text → Option Word
  | ['-', '-'] => some .dashes
  | '-' :: '-' :: body =>
    let (name, value) := splitValue body
    if name = "help".toList ∧ value = none then some .help
    else (Setting.ofLong? verb name).map fun s => .setting s value
  | '-' :: letter :: tail =>
    if letter = 'h' then some .help
    else (Setting.ofShort? verb letter).map fun s => .setting s (attached tail)
  | _ => some .file

/-- Whether a word can be the value of the setting before it. -/
def isValue (word : Text) : Bool := word.head? != some '-' || word == ['-']

/-- What the words after a verb ask for. -/
inductive Wish where
  | help
  | arguments (a : Arguments)

/-- Reads the words after a verb. A setting may be waiting for its value. -/
def readWords (verb : Verb) (waiting : Option Setting) (a : Arguments) :
    List Text → Option Wish
  | [] =>
    match waiting with
    | none => some (.arguments a)
    | some _ => none
  | word :: words =>
    match waiting with
    | some setting =>
      if isValue word then
        match a.set setting word with
        | some a => readWords verb none a words
        | none => none
      else none
    | none =>
      match Word.of? verb word with
      | none => none
      | some .help => some .help
      | some .dashes => (words.foldlM Arguments.addFile a).map .arguments
      | some .file =>
        match a.addFile word with
        | some a => readWords verb none a words
        | none => none
      | some (.setting setting none) => readWords verb (some setting) a words
      | some (.setting setting (some value)) =>
        match a.set setting value with
        | some a => readWords verb none a words
        | none => none

/-- The words after `help`: at most the name of a command. -/
def isTopic : List Text → Bool
  | [] => true
  | [word] => (Verb.ofWord? word).isSome || word == "help".toList
  | _ => false

end Cli

/-- The request of a verb with the words after it. -/
def Request.ofVerb? (verb : Cli.Verb) (words : List Text) : Option Request :=
  match Cli.readWords verb none {} words with
  | some .help => some .help
  | some (.arguments a) => (a.command? verb).map .run
  | none => none

/-- The request of a command line. -/
def Request.ofWords? : List Text → Option Request
  | [] => none
  | ('-' :: 'V' :: _) :: _ => some .version
  | ('-' :: 'h' :: _) :: _ => some .help
  | word :: words =>
    if word = "--version".toList then some .version
    else if word = "--help".toList then some .help
    else if word = "help".toList then if Cli.isTopic words then some .help else none
    else
      match Cli.Verb.ofWord? word with
      | some verb => Request.ofVerb? verb words
      | none => none

end TwinRom
