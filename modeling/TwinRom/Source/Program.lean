import TwinRom.Log
import TwinRom.Rom.Image
import TwinRom.Source.Statement

/-!
# Programs

A program grows line by line. `Program.read` reads one more line: a line that is accepted adds its
code, a line that is rejected adds nothing, and both are counted. `Program.finish` turns the
code into an image.

`assemble` reads the lines of a source up to the first error, `diagnose` reads all of them and
collects the errors. `Program.lineEvents`, `assembleEvents` and `diagnoseEvents` list what a log
of these runs shows.
-/

namespace TwinRom

/-- A program as far as it has been read. -/
structure Program where
  /-- The number of lines read. -/
  lines : Nat
  /-- The code of the lines that were accepted. -/
  code : Fragment
  deriving DecidableEq

/-- The number of positions in a ROM. -/
def romSize : Nat := 256

namespace Program

/-- The program before its first line. -/
def empty : Program := ⟨0, .empty⟩

/-! ## One line -/

/-- Adds code, if the ROM has room for it. -/
def extend (p : Program) (code : Fragment) : Except Fault Fragment :=
  if p.code.length + code.length ≤ romSize then .ok (p.code ++ code)
  else .error (.romOverflow (p.code.length + code.length))

/-- The code of the program with one more line. -/
def codeWith (p : Program) (text : Text) : Except Fault Fragment := do
  p.extend (← Line.code text)

/-- The error of one more line, if there is one. -/
def error? (p : Program) (text : Text) : Option LineError :=
  match p.codeWith text with
  | .ok _ => none
  | .error fault => some ⟨some (p.lines + 1), fault⟩

/-- The program after one more line. -/
def read (p : Program) (text : Text) : Program :=
  match p.codeWith text with
  | .ok code => ⟨p.lines + 1, code⟩
  | .error _ => ⟨p.lines + 1, p.code⟩

@[simp] theorem lines_read (p : Program) (text : Text) : (p.read text).lines = p.lines + 1 := by
  unfold read
  split <;> rfl

/-! ## Many lines -/

/-- Reads lines up to the first error. -/
def readAll (p : Program) : List Text → Except LineError Program
  | [] => .ok p
  | text :: texts =>
    match p.error? text with
    | some e => .error e
    | none => readAll (p.read text) texts

/-- The errors of some lines, every line being read. -/
def errors (p : Program) : List Text → List LineError
  | [] => []
  | text :: texts => (p.error? text).toList ++ errors (p.read text) texts

/-- The program after some lines, whether they are accepted or not. -/
def readThrough (p : Program) (texts : List Text) : Program := texts.foldl read p

/-- The image of a program. -/
def image (p : Program) : Image := .ofStreams p.code.instructions p.code.data

/-- The image of a program, provided that every opcode is defined. -/
def finish (p : Program) : Except LineError Image :=
  match p.image.validate with
  | .ok () => .ok p.image
  | .error (position, opcode) => .error ⟨none, .invalidOpcode position opcode⟩

/-! ## Events -/

/-- The operands that are read before one is rejected. -/
def classifications : List Text → List Event
  | [] => []
  | token :: tokens =>
    match Operand.classify token with
    | .ok operand => .classified token operand :: classifications tokens
    | .error _ => []

/-- The operands that are read of an instruction; none are if their number is wrong. -/
def operandEvents (name : Text) (tokens : List Text) : List Event :=
  match Mnemonic.ofText? name with
  | some m => if tokens.length = m.arity then classifications tokens else []
  | none => []

/-- The event of a line that is accepted. -/
def codeEvents (p : Program) (text name : Text) (tokens : List Text) : List Event :=
  match p.error? text, Line.code text with
  | none, .ok code => [.encoded (p.lines + 1) name tokens code]
  | _, _ => []

/-- The events of one more line. -/
def lineEvents (p : Program) (text : Text) : List Event :=
  match Line.tokens text with
  | .ok (name :: tokens) => operandEvents name tokens ++ p.codeEvents text name tokens
  | _ => []

/-- The events of finishing a program. -/
def finishEvents (p : Program) : List Event :=
  match p.finish with
  | .ok x => [.assembled p.lines x.length]
  | .error _ => []

/-- The events of reading lines up to the first error, and then of finishing. -/
def assembleEvents (p : Program) : List Text → List Event
  | [] => p.finishEvents
  | text :: texts =>
    p.lineEvents text ++
      match p.error? text with
      | some _ => []
      | none => assembleEvents (p.read text) texts

/-- The events of reading all lines. -/
def readEvents (p : Program) : List Text → List Event
  | [] => []
  | text :: texts => p.lineEvents text ++ readEvents (p.read text) texts

end Program

/-! ## Whole sources -/

/-- The image of a source, or the first error in it. -/
def assemble (source : Text) : Except LineError Image := do
  (← Program.empty.readAll (Text.lines source)).finish

/-- Every error in a source. -/
def diagnose (source : Text) : List LineError :=
  match Program.empty.errors (Text.lines source) with
  | [] =>
    match (Program.empty.readThrough (Text.lines source)).finish with
    | .ok _ => []
    | .error e => [e]
  | errors => errors

/-- The events of `assemble`. -/
def assembleEvents (source : Text) : List Event :=
  Program.empty.assembleEvents (Text.lines source)

/-- The events of `diagnose`. A program with errors is not finished. -/
def diagnoseEvents (source : Text) : List Event :=
  let lines := Text.lines source
  Program.empty.readEvents lines ++
    match Program.empty.errors lines with
    | [] => (Program.empty.readThrough lines).finishEvents
    | _ => []

end TwinRom
