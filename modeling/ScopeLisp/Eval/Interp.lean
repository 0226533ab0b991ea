/-
ScopeLisp.Eval.Interp — interpreters: settings, a state, and what can be asked
of them.

A session is a row of such questions to one interpreter. A question that fails
leaves everything that was done before the failure.
-/
import ScopeLisp.Eval.Step

namespace ScopeLisp

/-- Why a text has no value: it cannot be read, or its evaluation fails. -/
inductive Failure
  | unread (error : SyntaxError)
  | raised (error : RuntimeError)

structure Interp where
  settings : Settings
  state : State

/-- How a text or a call ends. -/
abbrev Answer := Outcome Failure Value

namespace Interp

/-- A new interpreter. -/
def new (settings : Settings) (prelude : Prelude) : Interp := ⟨settings, .fresh prelude⟩

/-- Fuel for programs that are to run without a limit: more steps than any
machine takes. -/
def ampleFuel : Nat := tenTo 18

/-- Runs a computation on the state of an interpreter. -/
def perform (i : Interp) (x : Eval Value) : Answer × Interp :=
  match x i.state with
  | (.value v, s) => (.value v, { i with state := s })
  | (.error e, s) => (.error (.raised e), { i with state := s })
  | (.outOfFuel, s) => (.outOfFuel, { i with state := s })

/-- Evaluates a program at top level. A block runs directly in the global
scope, so its declarations become globals. -/
def evalProgram (i : Interp) (fuel : Nat) (program : Expr) : Answer × Interp :=
  i.perform (Eval.body (Eval.evaluate i.settings fuel) State.globalId program)

/-- Evaluates one expression in the global scope. Here a block opens a scope. -/
def evalExpr (i : Interp) (fuel : Nat) (e : Expr) : Answer × Interp :=
  i.perform (Eval.evaluate i.settings fuel e State.globalId)

/-- Reads a text as a program and evaluates it at top level. -/
def run (i : Interp) (fuel : Nat) (source : String) : Answer × Interp :=
  match Expr.ofProgram source with
  | .error e => (.error (.unread e), i)
  | .ok program => i.evalProgram fuel program

/-- Reads a text as one expression and evaluates it. -/
def evalText (i : Interp) (fuel : Nat) (source : String) : Answer × Interp :=
  match Expr.ofText source with
  | .error e => (.error (.unread e), i)
  | .ok e => i.evalExpr fuel e

/-- Calls a value with arguments. -/
def call (i : Interp) (fuel : Nat) (callee : Value) (args : List Value) : Answer × Interp :=
  i.perform (Eval.call i.settings (Eval.evaluate i.settings fuel) callee args)

/-- Calls the value of a global name with arguments. -/
def callGlobal (i : Interp) (fuel : Nat) (name : String) (args : List Value) : Answer × Interp :=
  match i.state.store.lookup? State.globalId name with
  | some callee => i.call fuel callee args
  | none => (.error (.raised (.unbound name)), i)

/-- The global names and their values. -/
def globals (i : Interp) : List (String × Value) :=
  (i.state.store.record State.globalId).entries

/-- Forgets the lines printed so far. -/
def clearOutput (i : Interp) : Interp := { i with state := { i.state with output := #[] } }

end Interp

end ScopeLisp
