import TwinRom.Cli.Reply

/-!
# Running a command line

`run` acts out a command line on a `Disk`. The outcome is what a caller can observe: the exit
status, what was printed, the errors, the events and the disk afterwards.
-/

namespace TwinRom

/-- What a run leaves behind. -/
structure Outcome where
  /-- The exit status: 0 for success, 1 for errors, 2 for a command line that was refused. -/
  exit : Nat
  /-- What was printed. -/
  stdout : List UInt8
  /-- The errors, each on lines of its own. -/
  stderr : List String
  /-- The events. -/
  events : List Event
  /-- The disk afterwards. -/
  disk : Disk

/-- The name and number of the program. -/
def versionText : String := "cpu8-as 0.1.0\n"

/-- A summary of the commands. -/
def helpText : String :=
  "Usage: cpu8-as <COMMAND>\n\nCommands:\n  assemble SOURCE [-o PATH] [-f FORMAT]\n" ++
    "  check SOURCE\n  validate IMAGE [--from FORMAT]\n" ++
    "  render IMAGE [--from FORMAT] [-f FORMAT] [-o PATH]\n"

/-- The outcome of printing a text and nothing else. -/
def Outcome.printed (disk : Disk) (t : String) : Outcome := ⟨0, Utf8.encode t.toList, [], [], disk⟩

/-- Acts out an action on a disk, after some events. -/
def Action.act (disk : Disk) (events : List Event) : Action → Outcome
  | fail messages => ⟨1, [], messages, events, disk⟩
  | print output => ⟨0, output, [], events, disk⟩
  | write path format content =>
    match disk.write path content with
    | .ok disk => ⟨0, [], [], events ++ [.wrote format path], disk⟩
    | .error fault => ⟨1, [], [Reply.unwritable fault], events, disk⟩

/-- Runs a command on a disk. -/
def Command.run (disk : Disk) (c : Command) : Outcome :=
  let reply := c.reply (disk.read c.input)
  reply.action.act disk reply.events

/-- Runs a command line on a disk. -/
def run (disk : Disk) (words : List Text) : Outcome :=
  match Request.ofWords? words with
  | none => ⟨2, [], [], [], disk⟩
  | some .version => .printed disk versionText
  | some .help => .printed disk helpText
  | some (.run command) => command.run disk

end TwinRom
