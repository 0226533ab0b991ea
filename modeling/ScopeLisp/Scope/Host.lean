/-
ScopeLisp.Scope.Host — functions that a host adds to the language.

A host function always returns. It is told of its arguments what can be said without
looking into them (`HostArgument`), and it answers with data or with one of the arguments
(`HostAnswer`). So it gives nothing but what it was given, and all that it does besides is
to write lines.
-/
import ScopeLisp.Eval.RuntimeError

namespace ScopeLisp

/-- Values that are not objects. -/
inductive Datum
  /-- The value of an empty block and of a loop without iterations. -/
  | undefined
  | null
  | bool (value : Bool)
  | number (value : Float)
  | str (value : String)

/-- What a host function is told of an argument. -/
inductive HostArgument
  | datum (value : Datum)
  /-- A function or a scope: its type, how it is printed, and a number that no other object
  of this type has. -/
  | object (typeName text : String) (number : Nat)

/-- What a host function answers when it is given `count` arguments. -/
inductive HostAnswer (count : Nat)
  | datum (value : Datum)
  /-- The argument at a place. -/
  | argument (place : Fin count)

/-- A function that comes from a host. -/
structure HostFunction where
  /-- The answer and the lines that are written, or why there is no answer; then nothing is
  written. -/
  answer (arguments : List HostArgument) :
    Except RuntimeError (HostAnswer arguments.length × Array String)
  /-- It does not fail as calls at the limit do. -/
  withinLimit (arguments : List HostArgument) (depth : Nat) :
    answer arguments ≠ .error (.stackExhausted depth)

end ScopeLisp
