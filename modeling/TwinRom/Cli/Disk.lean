import TwinRom.Path
import TwinRom.Text.Utf8

/-!
# Disks

The files below a working directory, as far as a command can see them. A place on the disk is the
list of names that leads to it, and the empty list is the working directory. Every place above a
file is a directory, whether it is listed or not.

Outside of the working directory there are the directories above it, whose places are lists of
two dots, and the root, whose place is a slash. Nothing else is known to be there.

`Disk.read` and `Disk.write` take a path as a user writes it. A path is walked name by name, and
each step has to start from a directory. A name has at most 255 bytes, and a path less than 4096.
-/

namespace TwinRom

/-- Why a file cannot be read or written. -/
inductive FileFault where
  /-- There is nothing at the path. -/
  | notFound
  /-- The path goes on behind a file. -/
  | notDirectory
  /-- There is a directory at the path. -/
  | isDirectory
  /-- The path, or a name in it, is longer than the system takes. -/
  | nameTooLong
  /-- The file was read as a text and is none. -/
  | notText
  /-- The system refuses for a reason of its own. -/
  | refused (reason : String)
  deriving DecidableEq

/-- The wording of a fault. -/
def FileFault.message : FileFault → String
  | notFound => "No such file or directory (os error 2)"
  | notDirectory => "Not a directory (os error 20)"
  | isDirectory => "Is a directory (os error 21)"
  | nameTooLong => "File name too long (os error 36)"
  | notText => "stream did not contain valid UTF-8"
  | refused reason => reason

/-- What can be at a place. -/
inductive Disk.Node where
  | file (content : List UInt8)
  | directory
  deriving DecidableEq

/-- A place, as the names that lead to it. -/
abbrev Disk.Place := List Text

/-- The files and directories below the working directory. -/
structure Disk where
  /-- What is listed, each place once. -/
  entries : List (Disk.Place × Disk.Node)
  deriving DecidableEq

namespace Disk

/-- The root of the system. -/
def Place.root : Place := [['/']]

/-- Whether a place is the working directory or one above it. -/
def Place.isAbove (place : Place) : Bool :=
  place == Place.root || place.all fun name => name == ['.', '.']

/-- The directory above a place. There is none above the root. -/
def Place.parent (place : Place) : Place :=
  if place = Place.root then place
  else if Place.isAbove place then place ++ [['.', '.']]
  else place.dropLast

/-- Whether a place lies below the working directory. -/
def Place.isInside (place : Place) : Bool :=
  place.head? != some ['.', '.'] && place.head? != some ['/']

/-- What is at a place. -/
def node? (disk : Disk) (place : Place) : Option Node :=
  match disk.entries.lookup place with
  | some node => some node
  | none =>
    if Place.isAbove place || disk.entries.any fun e => place.isPrefixOf e.1 then some .directory
    else none

/-! ## Paths -/

/-- The names in a path. A slash at the end stands for the directory itself. -/
def names (path : Text) : List Text :=
  let pieces := path.splitOn '/'
  (pieces.dropLast.filter fun name => !name.isEmpty) ++
    [if pieces.getLast?.getD [] = [] then ['.'] else pieces.getLast?.getD []]

/-- The number of bytes of a text. -/
def byteLength (t : Text) : Nat := (Utf8.encode t).length

/-- Walks names from a place. -/
def walk (disk : Disk) (place : Place) : List Text → Except FileFault Place
  | [] => .ok place
  | name :: others =>
    match disk.node? place with
    | some .directory =>
      if name = ['.'] then walk disk place others
      else if name = ['.', '.'] then walk disk (Place.parent place) others
      else if 255 < byteLength name then .error .nameTooLong
      else walk disk (place ++ [name]) others
    | some (.file _) => .error .notDirectory
    | none => .error .notFound

/-- The place at which a path starts. -/
def start (path : Text) : Place := if path.head? = some '/' then Place.root else []

/-- The place that names lead to, being those of a path or the first of them. -/
def follow (disk : Disk) (path : Text) (names : List Text) : Except FileFault Place :=
  if 4096 ≤ byteLength path then .error .nameTooLong else disk.walk (start path) names

/-- The place that a path leads to. -/
def locate (disk : Disk) (path : Text) : Except FileFault Place := disk.follow path (names path)

/-! ## Reading and writing -/

/-- The content of the file at a path. -/
def read (disk : Disk) (path : Text) : Except FileFault (List UInt8) := do
  match disk.node? (← disk.locate path) with
  | some (.file content) => .ok content
  | some .directory => .error .isDirectory
  | none => .error .notFound

/-- The disk with other content at a place. -/
def put (disk : Disk) (place : Place) (content : List UInt8) : Disk :=
  ⟨disk.entries.filter (fun e => e.1 != place) ++ [(place, .file content)]⟩

/-- The place at which a file can be created or replaced. A path with a slash at its end is
meant for a directory, provided that the one above it is there. -/
def target (disk : Disk) (path : Text) : Except FileFault Place :=
  if path.getLast? = some '/' then
    match disk.follow path ((names path).dropLast.dropLast ++ [['.']]) with
    | .ok _ => .error .isDirectory
    | .error fault => .error fault
  else disk.locate path

/-- The disk after a file is written. -/
def write (disk : Disk) (path : Text) (content : List UInt8) : Except FileFault Disk := do
  let place ← disk.target path
  match disk.node? place with
  | some .directory => .error .isDirectory
  | _ => .ok (disk.put place content)

/-- The files of `after` in the working directory that `disk` does not have, or not with that
content. -/
def changes (disk after : Disk) : List (Place × List UInt8) :=
  after.entries.filterMap fun e =>
    match e.2 with
    | .file content =>
      if Place.isInside e.1 ∧ disk.entries.lookup e.1 ≠ some (.file content) then
        some (e.1, content)
      else none
    | .directory => none

end Disk

end TwinRom
