/-
ScopeLisp.Eval.State — the state of an interpreter, and computations on it.

A computation ends with a value, with an error, or out of fuel; whichever it
is, it leaves a state, so what was done before a failure stays done.
-/
import ScopeLisp.Scope.Show
import ScopeLisp.Eval.Prelude
import ScopeLisp.Module.Source

namespace ScopeLisp

/-! ## Outcomes -/

/-- How a computation ends. -/
inductive Outcome (ε α : Type)
  | value (a : α)
  | error (e : ε)
  | outOfFuel

/-! ## State -/

/-- What does not change while a program runs. -/
structure Settings where
  /-- How many calls, and how many imports, may run inside one another. -/
  maxCallDepth : Nat
  /-- Whether a module is evaluated once and reused. -/
  memoize : Bool
  modules : ModuleSource

/-- What evaluation reads and changes. -/
structure State where
  store : Store
  /-- The serial number of the next function. -/
  serials : Nat
  /-- Modules that have been imported, when they are kept. -/
  cache : Bindings ScopeId
  /-- The lines printed so far. -/
  output : Array String
  /-- How many calls are running. -/
  depth : Nat
  /-- The modules whose bodies are running, innermost first. -/
  importing : List String

namespace State

/-- The number of the global scope. -/
def globalId : ScopeId := Store.rootId

/-- A fresh state, with a prelude in its global scope. -/
def fresh (prelude : Prelude) : State where
  store := prelude.install (.root .global) globalId
  serials := prelude.serials
  cache := .empty
  output := #[]
  depth := 0
  importing := []

end State

/-! ## Computations -/

/-- A computation on the state. -/
def Eval (α : Type) := State → Outcome RuntimeError α × State

namespace Eval

variable {α β : Type}

/-- Gives a value and leaves the state as it is. -/
@[always_inline, inline]
def done (a : α) : Eval α := fun s => (.value a, s)

/-- One computation and then, if it has a value, another. -/
@[always_inline, inline]
def andThen (x : Eval α) (f : α → Eval β) : Eval β := fun s =>
  match x s with
  | (.value a, s) => f a s
  | (.error e, s) => (.error e, s)
  | (.outOfFuel, s) => (.outOfFuel, s)

instance : Monad Eval where
  pure := done
  bind := andThen

/-- Fails. -/
@[always_inline, inline]
def fail (e : RuntimeError) : Eval α := fun s => (.error e, s)

/-- Ends for want of fuel. -/
def starve : Eval α := fun s => (.outOfFuel, s)

/-- The value of a question about the state, or a failure. -/
@[always_inline, inline]
def ask (f : State → Except RuntimeError α) : Eval α := fun s =>
  match f s with
  | .ok a => (.value a, s)
  | .error e => (.error e, s)

/-- A change of the state that gives a value. -/
@[always_inline, inline]
def update (f : State → α × State) : Eval α := fun s =>
  let (a, s) := f s
  (.value a, s)

/-! ## Steps on the store -/

/-- Opens a scope inside `parent`. -/
def openScope (parent : ScopeId) (kind : ScopeKind) : Eval ScopeId :=
  update fun s => (s.store.size, { s with store := s.store.child parent kind })

/-- Defines a name in a scope and gives its value. -/
def define (id : ScopeId) (name : String) (value : Value) : Eval Value :=
  update fun s => (value, { s with store := s.store.define id name value })

/-- Assigns to a name where it is bound and gives its value. -/
def assign (id : ScopeId) (name : String) (value : Value) : Eval Value := fun s =>
  match s.store.resolve? id name with
  | some owner => define owner name value s
  | none => (.error (.unbound name), s)

/-- The value of a name. -/
def lookup (id : ScopeId) (name : String) : Eval Value :=
  ask fun s =>
    match s.store.lookup? id name with
    | some value => .ok value
    | none => .error (.unbound name)

/-- A number that no function has yet. -/
def freshSerial : Eval Nat :=
  update fun s => (s.serials, { s with serials := s.serials + 1 })

/-- The failure of an operation on a value it cannot use. -/
def mismatch (operation : String) (expected : Expected) (found : Value) : Eval α :=
  ask fun s => .error (.typeMismatch operation expected (s.store.describe found))

/-! ## Brackets

The counts of running calls and imports go up before a computation and come
down after it, whatever its outcome. -/

/-- Runs a computation as a call. -/
@[always_inline, inline]
def asCall (x : Eval α) : Eval α := fun s =>
  let (r, s) := x { s with depth := s.depth + 1 }
  (r, { s with depth := s.depth - 1 })

/-- Runs a computation as the import of a module. -/
@[always_inline, inline]
def asImport (name : String) (x : Eval α) : Eval α := fun s =>
  let (r, s) := x { s with importing := name :: s.importing }
  (r, { s with importing := s.importing.tail })

end Eval

end ScopeLisp
