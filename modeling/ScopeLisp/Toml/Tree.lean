/-
ScopeLisp.Toml.Tree — TOML documents as trees, and their assembly from lines.

A document is a row of lines: entries, which belong to the table opened last,
and table headers. Every table remembers how it came to be, since that decides
what may still be added to it (`Origin`).
-/

namespace ScopeLisp

inductive Toml
  | string (value : String)
  | integer (value : Int)
  | float (value : Float)
  | bool (value : Bool)
  /-- A date, a time of day, or both. -/
  | dateTime
  | array (items : List Toml)
  | table (entries : List (String × Toml))

namespace Toml

/-- One line of a document that is not blank. -/
inductive Line
  /-- A value under a key, below the tables that the dotted path names. -/
  | entry (path : List String) (key : String) (value : Toml)
  /-- The header of a table. -/
  | header (path : List String) (key : String)
  /-- The header of the next table of an array. -/
  | arrayHeader (path : List String) (key : String)

/-- How a table came to be. -/
inductive Origin
  /-- By its own header, or written out as a value: it may not be opened
  again. -/
  | header
  /-- By the header of a table below it: its own header may still come. -/
  | implied
  /-- By a dotted key: more dotted keys may add to it. -/
  | dotted
deriving DecidableEq

/-- A document in the making. -/
inductive Node
  | value (value : Toml)
  | table (origin : Origin) (entries : List (String × Node))
  /-- An array of tables, the newest first. -/
  | tables (rows : List (List (String × Node)))

/-- The entries of a table in the making. -/
abbrev Entries := List (String × Node)

/-- Replaces the node of a key where it stands; a new key comes last. -/
def putNode (key : String) (node : Node) : Entries → Entries
  | [] => [(key, node)]
  | (k, old) :: rest => if k = key then (k, node) :: rest else (k, old) :: putNode key node rest

/-- Changes the table that a path leads to. Tables on the way that are missing
are made with the origin `made`. A dotted path may only pass through tables
that dotted keys or headers below them have made. -/
def changeAt (made : Origin) (change : Origin → Entries → Option Entries) :
    List String → Origin → Entries → Option Entries
  | [], origin, entries => change origin entries
  | key :: path, _, entries =>
    match entries.lookup key with
    | none => do
      let below ← changeAt made change path made []
      some (putNode key (.table made below) entries)
    | some (.value _) => none
    | some (.table origin inner) =>
      if made = .dotted ∧ origin = .header then none
      else do
        let below ← changeAt made change path origin inner
        some (putNode key (.table origin below) entries)
    | some (.tables []) => none
    | some (.tables (row :: rows)) => do
      let below ← changeAt made change path .header row
      some (putNode key (.tables (below :: rows)) entries)

/-- Adds an entry below a dotted path. The table it lands in must be the open
one, or one made by dotted keys, and must not have the key. -/
def addEntry (path : List String) (key : String) (value : Toml) : Entries → Option Entries :=
  changeAt .dotted (fun origin entries =>
    if (origin == .dotted) == path.isEmpty then none
    else if (entries.lookup key).isSome then none
    else some (entries ++ [(key, .value value)])) path .header

/-- A table written out as a value, from its entries in order. -/
def inlineEntries : Entries → List (List String × String × Toml) → Option Entries
  | entries, [] => some entries
  | entries, (path, key, value) :: rest => do
    inlineEntries (← addEntry path key value entries) rest

mutual

/-- The finished tree of a node. -/
def Node.finish : Node → Toml
  | .value v => v
  | .table _ entries => .table (finishEntries entries)
  | .tables rows => .array (finishRows rows).reverse

def finishEntries : List (String × Node) → List (String × Toml)
  | [] => []
  | (key, node) :: rest => (key, node.finish) :: finishEntries rest

def finishRows : List (List (String × Node)) → List Toml
  | [] => []
  | row :: rows => .table (finishEntries row) :: finishRows rows

end

/-- The table of entries written out as a value. -/
def ofInline? (entries : List (List String × String × Toml)) : Option Toml :=
  (inlineEntries [] entries).map fun es => .table (finishEntries es)

/-- The table that the lines being read belong to. -/
structure OpenTable where
  path : List String
  key : String
  isArray : Bool

/-- A document in the making: what is closed, and the open table. Before the
first header the open table is the document itself. -/
structure Document where
  closed : Entries
  opened : Option OpenTable
  entries : Entries

namespace Document

/-- Puts the open table where its header says. -/
def close (d : Document) : Option Entries :=
  match d.opened with
  | none => some d.entries
  | some t =>
    changeAt .implied (fun _ entries =>
      if t.isArray then
        match entries.lookup t.key with
        | some (.tables rows) => some (putNode t.key (.tables (d.entries :: rows)) entries)
        | none => some (putNode t.key (.tables [d.entries]) entries)
        | some _ => none
      else some (putNode t.key (.table .header d.entries) entries)) t.path .header d.closed

/-- What a header finds under its key: an implied table keeps its entries, and
nothing else may be opened again. -/
def reopened (isArray : Bool) : Option Node → Option Entries
  | none => some []
  | some (.tables _) => if isArray then some [] else none
  | some (.table .implied entries) => if isArray then none else some entries
  | some _ => none

/-- Opens the table of a header. -/
def openTable (d : Document) (t : OpenTable) : Option Document := do
  let closed ← d.close
  let found ← lookupAt t.path closed
  let entries ← reopened t.isArray (found.bind (·.lookup t.key))
  some ⟨closed, some t, entries⟩
where
  /-- The entries that a path leads to; `some none` if there are none yet, and
  `none` if there cannot be any. -/
  lookupAt : List String → Entries → Option (Option Entries)
    | [], entries => some (some entries)
    | key :: path, entries =>
      match entries.lookup key with
      | none => some none
      | some (.value _) => none
      | some (.table _ inner) => lookupAt path inner
      | some (.tables []) => none
      | some (.tables (row :: _)) => lookupAt path row

/-- Adds one line. -/
def addLine (d : Document) : Line → Option Document
  | .entry path key value =>
    (addEntry path key value d.entries).map fun entries => { d with entries }
  | .header path key => d.openTable ⟨path, key, false⟩
  | .arrayHeader path key => d.openTable ⟨path, key, true⟩

end Document

/-- The tree of a document, from its lines. -/
def ofLines? (lines : List Line) : Option Toml := do
  let d ← lines.foldlM Document.addLine ⟨[], none, []⟩
  some (.table (finishEntries (← d.close)))

end Toml

end ScopeLisp
