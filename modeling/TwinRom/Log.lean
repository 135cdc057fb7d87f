import TwinRom.Rom.Format
import TwinRom.Rom.Fragment
import TwinRom.Source.Operand
import TwinRom.Text.Plain
import TwinRom.Text.Quoted

/-!
# Log events

What the library has to tell apart from its results. An event is data; `Event.level` says how
much it matters and `Event.message` words it. Functions that work in silence have a companion
that lists their events in order.
-/

namespace TwinRom

/-- How much an event matters, the most first. -/
inductive Log.Level where
  | error
  | warn
  | info
  | debug
  | trace
  deriving DecidableEq, Repr

namespace Log.Level

/-- All levels. -/
def all : List Level := [error, warn, info, debug, trace]

/-- The place of a level in the order. -/
def rank : Level → Nat
  | error => 1
  | warn => 2
  | info => 3
  | debug => 4
  | trace => 5

/-- The name of a level. -/
def name : Level → String
  | error => "error"
  | warn => "warn"
  | info => "info"
  | debug => "debug"
  | trace => "trace"

/-- The level with a name. -/
def ofName? (t : Text) : Option Level := all.find? fun l => l.name.toList == t

end Log.Level

/-- The level down to which events are shown: warnings if nothing is set, and nothing at all if
what is set is no level. -/
def Log.threshold : Option Text → Option Log.Level
  | none => some .warn
  | some name => Log.Level.ofName? name

/-- Something worth a line in the log. -/
inductive Event where
  /-- A token was read as an operand. -/
  | classified (token : Text) (operand : Operand)
  /-- A line was turned into code. -/
  | encoded (line : Nat) (name : Text) (operands : List Text) (code : Fragment)
  /-- A program was completed. -/
  | assembled (lines positions : Nat)
  /-- The streams of an image were too long and have been cut. -/
  | truncated (instructions data : Nat)
  /-- An image was written to a file. -/
  | wrote (format : Format) (path : Text)
  deriving DecidableEq

namespace Event

/-- How much an event matters. -/
def level : Event → Log.Level
  | classified _ _ => .trace
  | encoded _ _ _ _ => .debug
  | assembled _ _ => .info
  | truncated _ _ => .warn
  | wrote _ _ => .info

/-- An operand with the name of its kind. -/
def operandText : Operand → String
  | .register n => s!"Register({n.toNat})"
  | .address n => s!"RamAddress({n.toNat})"
  | .immediate n => s!"Immediate({n.toNat})"

/-- Texts in brackets, divided by commas. -/
def row (items : List String) : String := "[" ++ ", ".intercalate items ++ "]"

/-- A stream as a row of hexadecimal bytes. -/
def streamText (stream : List UInt8) : String :=
  row (stream.map fun b => String.ofList (Text.hexByte Text.lowerDigit b))

/-- The wording of an event. -/
def message : Event → String
  | classified token operand =>
    s!"classified \"{String.ofList token}\" as {operandText operand}"
  | encoded line name operands code =>
    let quoted := row (operands.map fun o => String.ofList (Text.quoted o))
    let streams := s!"{streamText code.instructions} / {streamText code.data}"
    s!"line {line}: {String.ofList name} {quoted} -> {streams}"
  | assembled lines positions => s!"assembled {lines} lines into {positions} ROM positions"
  | truncated instructions data =>
    s!"truncating image streams of {instructions} / {data} bytes to 256"
  | wrote format path => s!"wrote {format.name} image to \"{String.ofList path}\""

/-- An event as a log line, with its level in capitals. -/
def logLine (e : Event) : String := s!"{e.level.name.toUpper} {e.message}"

/-- A text in which what follows a line feed is set in by four spaces. -/
def indented (t : Text) : Text :=
  t.flatMap fun c => if c = '\n' then '\n' :: List.replicate 4 ' ' else [c]

/-- An event as the lines of a console, in plain text. The first one starts with the level, and
the others, if the message has line feeds, are set in. -/
def consoleLines (e : Event) : List String :=
  (Text.lines (Text.plain (indented e.logLine.toList ++ ['\n']))).map String.ofList

/-- Whether an event shows in a log of the given level; a log may be off. -/
def shows (log : Option Log.Level) (e : Event) : Bool :=
  match log with
  | some level => decide (e.level.rank ≤ level.rank)
  | none => false

end Event

end TwinRom
