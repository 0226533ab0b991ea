/-
ScopeLisp.Json.Expr — expressions as JSON.

An expression is an object with the name of its kind under `kind` and what it
holds under `value`. Reading takes the two entries in any order and ignores
all others, or takes an array of the two; a container may not be nested more
than `maxNesting` deep in what is read.
-/
import ScopeLisp.Json.Numeral
import ScopeLisp.Json.Read
import ScopeLisp.Json.Write
import ScopeLisp.Syntax.Expr

namespace ScopeLisp

/-- The units of a text without escapes by number. -/
def unitsOf (s : String) : List JsonUnit := s.toList.map .char

namespace Expr

/-! ## Writing -/

/-- An object with a kind and a value. -/
def tagged (kind : String) (value : JsonTree) : JsonTree :=
  .object [(unitsOf "kind", .string (unitsOf kind)), (unitsOf "value", value)]

mutual

/-- The tree of an expression. A number that is not finite has no numeral and
becomes `null`. -/
def toJson : Expr → JsonTree
  | .number value =>
    tagged "Number" (((JsonNumeral.ofBinary64? (.ofFloat value)).map .number).getD .null)
  | .str value => tagged "Str" (.string (unitsOf value))
  | .symbol name => tagged "Symbol" (.string (unitsOf name))
  | .list items => tagged "List" (.array (toJsonItems items))

def toJsonItems : List Expr → List JsonTree
  | [] => []
  | e :: es => e.toJson :: toJsonItems es

end

/-! ## Reading -/

/-- The kinds of expressions. -/
inductive Kind
  | number
  | str
  | symbol
  | list
deriving DecidableEq

/-- The kind with a given name. -/
def Kind.ofName? (name : String) : Option Kind :=
  if name = "Number" then some .number
  else if name = "Str" then some .str
  else if name = "Symbol" then some .symbol
  else if name = "List" then some .list
  else none

/-- Containers may be nested one less than this deep. -/
def maxNesting : Nat := 128

/-- The string that units stand for. -/
def stringOf? (units : List JsonUnit) : Option String :=
  (JsonTree.stringOfUnits? units).map String.ofList

mutual

/-- Whether every part of a tree has a value: strings without lone surrogates,
numerals in range, and containers nested less than `depth` deep. -/
def allValid (depth : Nat) : JsonTree → Bool
  | .null | .bool _ => true
  | .number n => n.value?.isSome
  | .string units => (JsonTree.stringOfUnits? units).isSome
  | .array items => match depth with
    | 0 | 1 => false
    | depth + 1 => allValidItems depth items
  | .object entries => match depth with
    | 0 | 1 => false
    | depth + 1 => allValidEntries depth entries

def allValidItems (depth : Nat) : List JsonTree → Bool
  | [] => true
  | t :: ts => allValid depth t && allValidItems depth ts

def allValidEntries (depth : Nat) : List (List JsonUnit × JsonTree) → Bool
  | [] => true
  | (k, t) :: es =>
    (JsonTree.stringOfUnits? k).isSome && allValid depth t && allValidEntries depth es

end

/-- The kind that a tree names: a string, or an object with the name as its one
key and `null` under it. -/
def kindOf? (depth : Nat) : JsonTree → Option Kind
  | .string units => do Kind.ofName? (← stringOf? units)
  | .object [(key, .null)] => do
    if depth ≤ 1 then none
    Kind.ofName? (← stringOf? key)
  | _ => none

/-- What the entries of an object say about an expression. -/
structure Entries where
  kind : Option JsonTree
  value : Option JsonTree
  /-- Whether the value stands before the kind. -/
  valueFirst : Bool

/-- Gathers the entries `kind` and `value` of an object. Neither may stand
there twice, and every key must stand for a string. -/
def Entries.gather (found : Entries) : List (List JsonUnit × JsonTree) → Option Entries
  | [] => some found
  | (key, tree) :: rest => do
    let key ← stringOf? key
    if key = "kind" then
      if found.kind.isSome then none
      else gather { found with kind := some tree } rest
    else if key = "value" then
      if found.value.isSome then none
      else gather { found with value := some tree, valueFirst := found.kind.isNone } rest
    else gather found rest

/-- The kind and the value that a container of an expression holds. A value
that stands before the kind is read in full, its ignored parts too. -/
def parts? (depth : Nat) : JsonTree → Option (Kind × JsonTree)
  | .object entries => do
    let found ← Entries.gather ⟨none, none, false⟩ entries
    let kind ← kindOf? depth (← found.kind)
    let value ← found.value
    if found.valueFirst && !allValid depth value then none
    some (kind, value)
  | .array [kind, value] => do some (← kindOf? depth kind, value)
  | _ => none

/-- The expression of a tree whose containers are nested less than `depth`
deep. -/
def ofTree? : Nat → JsonTree → Option Expr
  | 0, _ | 1, _ => none
  | depth + 1, tree => do
    match ← parts? depth tree with
    | (.number, .number n) => n.value?.map .number
    | (.str, .string units) => (stringOf? units).map .str
    | (.symbol, .string units) => (stringOf? units).map .symbol
    | (.list, .array items) =>
      match depth with
      | 0 | 1 => none
      | depth + 1 => (items.mapM (ofTree? depth)).map .list
    | _ => none

/-- The expression that a JSON text holds. -/
def ofJson? (text : String) : Option Expr := do ofTree? maxNesting (← JsonTree.ofText? text)

end Expr

end ScopeLisp
