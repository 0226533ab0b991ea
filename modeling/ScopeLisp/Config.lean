/-
ScopeLisp.Config — the settings of an interpreter, and their file.

Every setting has a default, so that a partial file, or none at all, will do.
A group of settings is a table, or an array of its settings in order.
-/
import ScopeLisp.Module.Search
import ScopeLisp.Toml.Read

namespace ScopeLisp

structure Config where
  /-- How many calls may run inside one another. -/
  maxCallDepth : Nat
  /-- Where modules are looked for. -/
  search : ModuleSearch
  /-- Whether a module is evaluated once and reused. -/
  memoize : Bool
deriving DecidableEq

/-- Why settings cannot be had from a file. -/
inductive ConfigError
  | unreadable (path : String)
  | invalid (path : String)
deriving DecidableEq

namespace ConfigError

/-- The stable name of a cause. -/
def code : ConfigError → String
  | unreadable _ => "config::io"
  | invalid _ => "config::parse"

def message : ConfigError → String
  | unreadable path => "Failed to read config file " ++ path
  | invalid path => "Invalid config file " ++ path

end ConfigError

namespace Config

/-- The settings without a file. -/
def default : Config where
  maxCallDepth := 2000
  search := ⟨["modules", "."], "eva"⟩
  memoize := true

/-- The name of the file with the settings. -/
def fileName : String := "eva.toml"

/-! ## Settings from TOML -/

/-- The settings of a group by name, `none` if the tree is no group. An array
gives them in the order of `names`; more than those are ignored. A date has no
settings. -/
def group? (names : List String) : Toml → Option (List (String × Toml))
  | .table entries => some entries
  | .array items => some (names.zip items)
  | .dateTime => some []
  | _ => none

/-- A setting that may be missing. -/
def setting {α : Type} (entries : List (String × Toml)) (name : String) (missing : α)
    (read : Toml → Option α) : Option α :=
  match entries.lookup name with
  | none => some missing
  | some tree => read tree

def asText? : Toml → Option String
  | .string value => some value
  | _ => none

def asBool? : Toml → Option Bool
  | .bool value => some value
  | _ => none

/-- A count: an integer that is not negative. -/
def asCount? : Toml → Option Nat
  | .integer (.ofNat n) => some n
  | _ => none

def asTexts? : Toml → Option (List String)
  | .array items => items.mapM asText?
  | _ => none

/-- The settings of a document; unknown ones are ignored. -/
def ofToml? (tree : Toml) : Option Config := do
  let root ← group? ["limits", "modules"] tree
  let limits ← setting root "limits" [] (group? ["max_call_depth"])
  let modules ← setting root "modules" [] (group? ["search_paths", "extension", "memoize"])
  let maxCallDepth ← setting limits "max_call_depth" default.maxCallDepth asCount?
  let directories ← setting modules "search_paths" default.search.directories asTexts?
  let extension ← setting modules "extension" default.search.extension asText?
  let memoize ← setting modules "memoize" default.memoize asBool?
  some ⟨maxCallDepth, ⟨directories, extension⟩, memoize⟩

/-- The settings of a TOML text. -/
def ofText? (text : String) : Option Config := do ofToml? (← Toml.ofText? text)

/-! ## Settings from files -/

/-- The settings in a file. -/
def load (fs : FileSystem) (path : String) : Except ConfigError Config :=
  match fs.readText? path with
  | none => .error (.unreadable path)
  | some text =>
    match ofText? text with
    | none => .error (.invalid path)
    | some config => .ok config

/-- Where the settings of a directory stand. -/
def pathIn (directory : String) : String := joinPath directory fileName

/-- The settings in the file of a directory, or the defaults if there is no
such file. -/
def discover (fs : FileSystem) (directory : String) : Except ConfigError Config :=
  match fs (pathIn directory) with
  | some (.file _) => load fs (pathIn directory)
  | _ => .ok default

end Config

end ScopeLisp
