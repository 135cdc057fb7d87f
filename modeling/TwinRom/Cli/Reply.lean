import TwinRom.Cli.Command
import TwinRom.Cli.Disk
import TwinRom.Rom.Transfer
import TwinRom.Source.Program

/-!
# Replies

What a command does once its file has been read. A command reads one file (`Command.input`) and
replies with events and one action: it fails with messages, prints, or writes one file. How the
file is read and written is left to whoever runs the command, so a reply can be acted out on a
real disk as well as on a `Disk`.
-/

namespace TwinRom

/-- What a command does in the end. -/
inductive Action where
  /-- Report errors. -/
  | fail (messages : List String)
  /-- Print something. -/
  | print (output : List UInt8)
  /-- Write an image to a file. -/
  | write (path : Text) (format : Format) (content : List UInt8)

/-- What a command says and does. -/
structure Reply where
  /-- The events up to the action. -/
  events : List Event
  /-- The action. -/
  action : Action

namespace Reply

/-- A failure with one message. -/
def failure (message : String) : Action := .fail [s!"error: {message}"]

/-- A text to be printed. -/
def text (t : String) : Action := .print (Utf8.encode t.toList)

/-- Says that a file cannot be read. -/
def unreadable (path : Text) (fault : FileFault) : Action :=
  failure s!"failed to read \"{String.ofList path}\": {fault.message}"

/-- The message about a file that cannot be written. -/
def unwritable (fault : FileFault) : String := s!"error: failed to write image: {fault.message}"

/-- What a new file holds once an image is written to it. A binary image is written stream by
stream, each at its place in the file. -/
def fileContent (x : Image) (format : Format) : List UInt8 :=
  if format.isBinary then Binary.overwrite x [] else x.render format

/-- Hands an image over, to a file or to the user. -/
def deliver (x : Image) (format : Format) (output : Option Text) : Action :=
  match output with
  | some path => .write path format (fileContent x format)
  | none => .print (x.render format)

/-- The text of a file that was read. -/
def asText (content : Except FileFault (List UInt8)) : Except FileFault Text := do
  match Utf8.decode (← content) with
  | .ok t => .ok t
  | .error _ => .error .notText

theorem asText_of_decode {bytes : List UInt8} {t : Text} (h : Utf8.decode bytes = .ok t) :
    asText (.ok bytes) = .ok t := by
  simp [asText, bind, Except.bind, h]

/-! ## The commands -/

/-- The format in which a program is written: the one that is asked for, else the one that the
output's name stands for, else the binary one. -/
def programFormat (output : Option Text) (format : Option Format) : Format :=
  match format with
  | some f => f
  | none => (output.bind Format.ofPath?).getD .bin

/-- Where a program is written. A binary image goes next to its source, if nothing else is said. -/
def programOutput (source : Text) (output : Option Text) (format : Format) : Option Text :=
  match output with
  | some path => some path
  | none => if format.isBinary then some (Path.defaultOutput source) else none

/-- Assembles a source. -/
def assemble (source : Text) (output : Option Text) (format : Option Format)
    (content : Except FileFault (List UInt8)) : Reply :=
  match asText content with
  | .error fault => ⟨[], unreadable source fault⟩
  | .ok t =>
    ⟨assembleEvents t,
      match TwinRom.assemble t with
      | .error e => failure s!"{String.ofList source}: {e.message}"
      | .ok x =>
        let format := programFormat output format
        deliver x format (programOutput source output format)⟩

/-- Checks a source. -/
def check (source : Text) (content : Except FileFault (List UInt8)) : Reply :=
  match asText content with
  | .error fault => ⟨[], unreadable source fault⟩
  | .ok t =>
    ⟨diagnoseEvents t,
      match diagnose t with
      | [] => text s!"{String.ofList source}: OK\n"
      | errors => .fail (errors.map fun e => s!"error: {String.ofList source}: {e.message}")⟩

/-- Loads an image and goes on with it. The format is settled before the file is looked at. -/
def withImage (path : Text) (origin : Option Format) (content : Except FileFault (List UInt8))
    (next : Image → Action) : Reply :=
  match origin.or (Format.ofPath? path) with
  | none => ⟨[], failure s!"cannot infer the image format of \"{String.ofList path}\""⟩
  | some format =>
    match content with
    | .error fault => ⟨[], unreadable path fault⟩
    | .ok bytes =>
      ⟨Image.loadEvents format bytes,
        match Image.load format bytes with
        | .ok x => next x
        | .error e => failure s!"failed to load \"{String.ofList path}\": {e.message}"⟩

/-- Reports the opcodes of an image that are not defined. -/
def verdict (x : Image) : Action :=
  match x.invalidOpcodes with
  | [] => text "ROM OK\n"
  | invalid => .fail (invalid.map fun p => s!"error: {(Fault.invalidOpcode p.1 p.2).message}")

end Reply

namespace Command

/-- The file that a command reads. -/
def input : Command → Text
  | assemble source _ _ => source
  | check source => source
  | validate image _ => image
  | render image _ _ _ => image

/-- The reply of a command to the content of its file. -/
def reply (content : Except FileFault (List UInt8)) : Command → Reply
  | assemble source output format => Reply.assemble source output format content
  | check source => Reply.check source content
  | validate image origin => Reply.withImage image origin content Reply.verdict
  | render image origin format output =>
    Reply.withImage image origin content fun x => Reply.deliver x format output

end Command

end TwinRom
