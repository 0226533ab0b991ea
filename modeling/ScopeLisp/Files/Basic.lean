/-
ScopeLisp.Files.Basic — what stands at the paths of a file system.

A file system is only looked at: it answers what stands at a path, and two
answers about one path are the same.
-/

namespace ScopeLisp

/-- What stands at a path. -/
inductive FileEntry
  | file (content : ByteArray)
  | directory

/-- What stands at each path, if anything does. -/
abbrev FileSystem := String → Option FileEntry

/-- The text of a file, when its bytes are UTF-8. -/
def FileEntry.text? : FileEntry → Option String
  | .file content => String.fromUTF8? content
  | .directory => none

/-- The text at a path; `none` if it cannot be read as text. -/
def FileSystem.readText? (fs : FileSystem) (path : String) : Option String := do
  (← fs path).text?

/-- A directory and the name of a file in it as one path. -/
def joinPath (directory file : String) : String :=
  if directory = "" ∨ directory.toList.getLast? = some '/' then directory ++ file
  else directory ++ "/" ++ file

end ScopeLisp
