/-
ScopeLisp.Files.Tree — a directory with files in it, kept in memory.

Paths are walked part by part, as file systems do: every part but the last
must be a directory, `.` stays, `..` goes up, and nothing lies above the
directory itself.
-/
import ScopeLisp.Files.Basic

namespace ScopeLisp

/-- What stands where, below one directory. A place is the list of names on the
way to it, innermost first. -/
structure FileTree where
  places : List (List String × FileEntry)

namespace FileTree

/-- What stands at a place. The directory itself is always there. -/
def find? (t : FileTree) (place : List String) : Option FileEntry :=
  if place.isEmpty then some .directory else t.places.lookup place

/-- Makes the directories on the way to a place. -/
def withParents (t : FileTree) : List String → FileTree
  | [] => t
  | name :: above =>
    let t := t.withParents above
    match t.find? (name :: above) with
    | some _ => t
    | none => ⟨(name :: above, .directory) :: t.places⟩

/-- The names of a path, outermost first. -/
def pathNames (path : String) : List String :=
  (path.splitOn "/").filter fun name => name ≠ "" ∧ name ≠ "."

/-- Adds an entry at a path, and the directories that lead to it. -/
def add (t : FileTree) (path : String) (entry : FileEntry) : FileTree :=
  match (pathNames path).reverse with
  | [] => t
  | name :: above => ⟨(name :: above, entry) :: (t.withParents above).places⟩

/-- A tree with the given entries. -/
def ofList (entries : List (String × FileEntry)) : FileTree :=
  entries.foldl (fun t e => t.add e.1 e.2) ⟨[]⟩

/-- What is found on the way that the parts of a path describe, from a
place. -/
def walk (t : FileTree) : List String → List String → Option FileEntry
  | place, [] => t.find? place
  | place, part :: parts =>
    match t.find? place with
    | some .directory =>
      if part = "" ∨ part = "." then t.walk place parts
      else if part = ".." then
        match place with
        | [] => none
        | _ :: above => t.walk above parts
      else t.walk (part :: place) parts
    | _ => none

/-- The file system of a tree, with relative paths only. -/
def fileSystem (t : FileTree) : FileSystem := fun path =>
  if path = "" ∨ path.toList.head? = some '/' ∨ path.toList.contains '\x00' then none
  else t.walk [] (path.splitOn "/")

end FileTree

end ScopeLisp
