import TwinRom.Text.Basic

/-!
# File paths

Components of a path are divided by slashes. A slash at the end, and a component `.` that is not
the first, add nothing, so they are dropped before the file name is looked for
(`Path.withoutTail`).

`Path.extension?` is what follows the last dot of the file name, provided that something stands
before that dot. `Path.defaultOutput` is where the binary image of a source goes: to the name of
the source followed by `.bin`, unless the path ends in a name of two dots and an extension.
-/

namespace TwinRom.Path

/-- A reversed path without the slashes and dots that add nothing to it. -/
def dropTail : Text → Text
  | '/' :: cs => dropTail cs
  | '.' :: '/' :: cs => dropTail cs
  | cs => cs

/-- A path without the slashes and dots at its end that add nothing to it. -/
def withoutTail (path : Text) : Text := (dropTail path.reverse).reverse

/-- The last component of a path, if it names a file or a directory. -/
def fileName? (path : Text) : Option Text :=
  let name := ((withoutTail path).reverse.takeWhile (· != '/')).reverse
  if name = [] ∨ name = ['.'] ∨ name = ['.', '.'] then none else some name

/-- What follows the last dot of a file name, unless nothing stands before that dot. -/
def nameExtension? (name : Text) : Option Text :=
  match name.reverse.dropWhile (· != '.') with
  | '.' :: _ :: _ => some (name.reverse.takeWhile (· != '.')).reverse
  | _ => none

/-- The extension of the file that a path names. -/
def extension? (path : Text) : Option Text := (fileName? path).bind nameExtension?

/-- A path up to the end of its file name, without the extension and the dot before it. -/
def withoutExtension (path : Text) : Text :=
  let whole := withoutTail path
  match extension? path with
  | some old => whole.take (whole.length - (old.length + 1))
  | none => whole

/-- Gives the file that a path names an extension in the place of its own. Nothing changes if the
path names no file. -/
def setExtension (path extension : Text) : Text :=
  if (fileName? path).isNone then path
  else if extension = [] then withoutExtension path
  else withoutExtension path ++ '.' :: extension

/-- A path with another extension, or with one added. As many characters as the old extension has
are cut off first, and what is left has to name a file; if it does not, because it is the directory
above, it is the result. -/
def withExtension (path extension : Text) : Text :=
  match extension? path with
  | some old => setExtension (path.take (path.length - old.length)) extension
  | none => setExtension path extension

/-- The path of the binary image of a source: its extension is replaced by the same followed by
`.bin`. -/
def defaultOutput (source : Text) : Text :=
  withExtension source <|
    match extension? source with
    | some extension => extension ++ ".bin".toList
    | none => "bin".toList

end TwinRom.Path
