/-
ScopeLisp.Scope.Arity — how many arguments a function takes.
-/

namespace ScopeLisp

inductive Arity
  | exact (count : Nat)
  | atLeast (count : Nat)
  /-- From `low` to `high`, both included. -/
  | range (low high : Nat)
deriving DecidableEq

namespace Arity

/-- Whether a number of arguments is allowed. -/
def accepts : Arity → Nat → Bool
  | exact k, n => n == k
  | atLeast k, n => decide (k ≤ n)
  | range low high, n => decide (low ≤ n) && decide (n ≤ high)

/-- How messages write an arity. -/
def text : Arity → String
  | exact k => toString k
  | atLeast k => "at least " ++ toString k
  | range low high => toString low ++ " to " ++ toString high

end Arity

end ScopeLisp
