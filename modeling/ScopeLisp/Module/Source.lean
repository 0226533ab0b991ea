/-
ScopeLisp.Module.Source — where the texts of modules come from.

A source only finds text. Reading and evaluating it is done by whoever imports
the module.
-/
import ScopeLisp.Eval.RuntimeError
import ScopeLisp.Scope.Bindings

namespace ScopeLisp

/-- Why the text of a module cannot be had. -/
inductive LoadFailure
  | notFound
  | unreadable (reason : String)
deriving DecidableEq

/-- What an import of a module fails with when its text cannot be had. -/
def LoadFailure.error (name : String) : LoadFailure → RuntimeError
  | notFound => .moduleNotFound name
  | unreadable reason => .moduleUnreadable name reason

/-- The text of every module, by name. -/
abbrev ModuleSource := String → Except LoadFailure String

namespace ModuleSource

/-- Modules kept in memory. -/
def ofMemory (modules : Bindings String) : ModuleSource := fun name =>
  match modules.get? name with
  | some text => .ok text
  | none => .error .notFound

/-- The text of a module, or why an import of it fails. -/
def load (source : ModuleSource) (name : String) : Except RuntimeError String :=
  match source name with
  | .ok text => .ok text
  | .error failure => .error (failure.error name)

variable {source : ModuleSource} {name : String}

theorem load_eq_ok {text : String} : source.load name = .ok text ↔ source name = .ok text := by
  rw [load]
  cases source name <;> simp

theorem load_eq_error {e : RuntimeError} :
    source.load name = .error e ↔
      ∃ failure, source name = .error failure ∧ failure.error name = e := by
  rw [load]
  cases source name <;> simp

end ModuleSource

end ScopeLisp
