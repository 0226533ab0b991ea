/-
ScopeLisp.Eval.Prelude — what a fresh global scope holds.

A prelude is data: names with constants and built-in functions, in the order
in which they are defined. Every interpreter installs a prelude of its own.
-/
import ScopeLisp.Scope.Store

namespace ScopeLisp

/-- The version of the language, also bound to `VERSION`. -/
def languageVersion : String := "0.1.0"

structure Prelude where
  entries : Bindings Value
  /-- The next serial number for a function. -/
  serials : Nat

namespace Prelude

/-- No bindings at all. -/
def empty : Prelude := ⟨.empty, 0⟩

/-- Adds or replaces a constant. -/
def constant (p : Prelude) (name : String) (value : Value) : Prelude :=
  { p with entries := p.entries.put name value }

/-- Adds or replaces a built-in function, maybe one of the host; it is a new object. -/
def native (p : Prelude) (name : String) (arity : Arity) (op : NativeOp) : Prelude :=
  ⟨p.entries.put name (.native ⟨p.serials, name, arity, op⟩), p.serials + 1⟩

/-- The functions of the standard prelude, with their names and arities. -/
def functions : List (String × Arity × NativeOp) :=
  [("+", .atLeast 1, .add), ("-", .range 1 2, .subtract), ("*", .atLeast 1, .multiply),
    ("/", .exact 2, .divide), ("%", .exact 2, .remainder), ("<", .exact 2, .less),
    ("<=", .exact 2, .lessEqual), (">", .exact 2, .greater), (">=", .exact 2, .greaterEqual),
    ("=", .exact 2, .equal), ("==", .exact 2, .equal), ("!=", .exact 2, .notEqual),
    ("print", .atLeast 0, .print)]

/-- The constants of the standard prelude. -/
def constants : List (String × Value) :=
  [("null", .null), ("true", .bool true), ("false", .bool false),
    ("VERSION", .str languageVersion)]

/-- Constants, arithmetic, comparison, equality and `print`. -/
def standard : Prelude :=
  functions.foldl (fun p f => p.native f.1 f.2.1 f.2.2)
    (constants.foldl (fun p c => p.constant c.1 c.2) empty)

/-- A function of the standard prelude as an object with the given serial. -/
def function? (name : String) (serial : Nat) : Option Native :=
  (functions.lookup name).map fun f => ⟨serial, name, f.1, f.2⟩

/-- Defines every entry in a scope. -/
def install (p : Prelude) (st : Store) (id : ScopeId) : Store :=
  p.entries.entries.foldl (fun st e => st.define id e.1 e.2) st

end Prelude

end ScopeLisp
