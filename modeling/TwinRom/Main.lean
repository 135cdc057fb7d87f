import TwinRom.Cli.Run

/-!
# The program

Acts out a command line on the files of the system. What a command does is decided by
`Command.reply`; here its file is read, its events are shown and its action is carried out.

Events go to the standard error stream, down to the level that the environment variable
`CPU8_LOG` names.
-/

namespace TwinRom

/-- A failure of the system as a fault of a file. Error 20 is the one about a path that goes on
behind a file, and error 36 the one about a long name; some calls give the number with the sign
changed. -/
def FileFault.ofError : IO.Error → FileFault
  | .noFileOrDirectory _ _ _ => .notFound
  | .inappropriateType _ code _ =>
    if code = 20 ∨ code = 0 - 20 then .notDirectory else .isDirectory
  | .invalidArgument file code details =>
    if code = 36 ∨ code = 0 - 36 then .nameTooLong
    else .refused (IO.Error.invalidArgument file code details).toString
  | e => .refused e.toString

/-- Carries out an action on files and tells whether it came off. -/
def attempt {α : Type} (action : IO α) : IO (Except FileFault α) :=
  try return .ok (← action) catch e => return .error (.ofError e)

/-- The bytes of a file. -/
def readBytes (path : Text) : IO (Except FileFault (List UInt8)) :=
  attempt do return (← IO.FS.readBinFile (String.ofList path)).toList

/-- Replaces a file. -/
def writeBytes (path : Text) (content : List UInt8) : IO (Except FileFault Unit) :=
  attempt (IO.FS.writeBinFile (String.ofList path) ⟨content.toArray⟩)

/-- Prints bytes. -/
def printBytes (output : List UInt8) : IO Unit := do
  let stdout ← IO.getStdout
  stdout.write ⟨output.toArray⟩
  stdout.flush

/-- Shows the events that a log takes in. -/
def showEvents (log : Option Log.Level) (events : List Event) : IO Unit :=
  (events.filter fun e => e.shows log).forM fun e => e.consoleLines.forM fun l => IO.eprintln l

/-- Carries out an action and gives the exit status. -/
def Action.carryOut (log : Option Log.Level) : Action → IO UInt32
  | fail messages => do
    messages.forM fun m => IO.eprintln m
    return 1
  | print output => do
    printBytes output
    return 0
  | write path format content => do
    match ← writeBytes path content with
    | .ok _ =>
      showEvents log [.wrote format path]
      return 0
    | .error fault =>
      IO.eprintln (Reply.unwritable fault)
      return 1

/-- Runs a command on the files of the system. -/
def Command.carryOut (log : Option Log.Level) (command : Command) : IO UInt32 := do
  let reply := command.reply (← readBytes command.input)
  showEvents log reply.events
  reply.action.carryOut log

end TwinRom

open TwinRom in
/-- Runs a command line. -/
def main (args : List String) : IO UInt32 := do
  let log := Log.threshold ((← IO.getEnv "CPU8_LOG").map String.toList)
  match Request.ofWords? (args.map String.toList) with
  | none =>
    IO.eprint helpText
    return 2
  | some .version =>
    IO.print versionText
    return 0
  | some .help =>
    IO.print helpText
    return 0
  | some (.run command) => command.carryOut log
