/-
ScopeLisp.Module.Search — modules in files.

A module stands in the first search directory that has a regular file of its
name; a name that could lead out of the search directories is refused before
any file is looked at.
-/
import ScopeLisp.Files.Basic
import ScopeLisp.Module.Source

namespace ScopeLisp

/-- Where module files are looked for. -/
structure ModuleSearch where
  directories : List String
  extension : String
deriving DecidableEq

namespace ModuleSearch

/-- Names that could leave the search directories. -/
def refuses (name : String) : Bool :=
  name.toList.any (fun c => c == '/' || c == '\\') || name.toList.head? == some '.'

/-- The paths at which a module may stand, in search order. -/
def candidates (s : ModuleSearch) (name : String) : List String :=
  s.directories.map fun directory => joinPath directory (name ++ "." ++ s.extension)

/-- The first path with a regular file, and its content. -/
def firstFile (fs : FileSystem) : List String → Option (String × ByteArray)
  | [] => none
  | path :: rest =>
    match fs path with
    | some (.file content) => some (path, content)
    | _ => firstFile fs rest

/-- The modules in the files of a file system. -/
def source (s : ModuleSearch) (fs : FileSystem) : ModuleSource := fun name =>
  if refuses name then .error (.unreadable "module names cannot contain path separators")
  else match firstFile fs (s.candidates name) with
    | none => .error .notFound
    | some (path, content) =>
      match String.fromUTF8? content with
      | some text => .ok text
      | none => .error (.unreadable (path ++ ": stream did not contain valid UTF-8"))

/-- The text of a module in a file, or why an import of it fails. -/
def load (s : ModuleSearch) (fs : FileSystem) (name : String) : Except RuntimeError String :=
  (s.source fs).load name

end ModuleSearch

end ScopeLisp
