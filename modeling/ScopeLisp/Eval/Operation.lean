/-
ScopeLisp.Eval.Operation — what the built-in functions do.

The number of arguments is checked first. Then arithmetic and comparison ask
for numbers and name the leftmost argument that is none, and division looks at
its divisor last. Division and comparison read the first two arguments by their
places, whatever number was accepted. A function of the host answers for itself.
-/
import ScopeLisp.Number.Remainder
import ScopeLisp.Scope.Show

namespace ScopeLisp

/-! ## Host functions -/

/-- The value that is answered to arguments. -/
def HostAnswer.value (args : List Value) {count : Nat} (h : count = args.length) :
    HostAnswer count → Value
  | datum d => d.value
  | argument place => args.get (place.cast h)

/-- Asks a host function, which is `told` something of each argument: the value and the
lines that are written. -/
def HostFunction.call (f : HostFunction) (told : Value → HostArgument) (args : List Value) :
    Except RuntimeError (Value × Array String) :=
  (f.answer (args.map told)).map fun (answer, lines) =>
    (answer.value args (List.length_map told), lines)

/-! ## Operations -/

namespace NativeOp

/-- How messages write the operation. -/
def symbol : NativeOp → String
  | add => "+"
  | subtract => "-"
  | multiply => "*"
  | divide => "/"
  | remainder => "%"
  | less => "<"
  | lessEqual => "<="
  | greater => ">"
  | greaterEqual => ">="
  | equal => "="
  | notEqual => "!="
  | print => "print"
  | host _ => "host"

/-- The arguments as numbers. -/
def numbers (st : Store) (op : NativeOp) : List Value → Except RuntimeError (List Float)
  | [] => .ok []
  | .number x :: rest => (numbers st op rest).map (x :: ·)
  | v :: _ => .error (.typeMismatch op.symbol .number (st.describe v))

/-- The concatenation, when every argument is a string. -/
def concat? : List Value → Option String
  | [] => some ""
  | .str s :: rest => (concat? rest).map (s ++ ·)
  | _ => none

/-- The operands at the first two places, if both are there. -/
def firstTwo? {α : Type} (operands : List α) : Option (α × α) := do
  return (← operands[0]?, ← operands[1]?)

/-- A quotient or a remainder; a zero of either sign does not divide. -/
def divided (compute : Float → Float → Float) (x y : Float) : Except RuntimeError Value :=
  if y == 0.0 then .error .divisionByZero else .ok (.number (compute x y))

/-- Arithmetic on numbers; `none` if a number is asked for that is not there. A sum starts
from `-0`, a product from `1`, and both go from left to right. -/
def arithmetic? (op : NativeOp) (xs : List Float) : Option (Except RuntimeError Value) :=
  match op with
  | add => some (.ok (.number (xs.foldl (· + ·) (-0.0))))
  | multiply => some (.ok (.number (xs.foldl (· * ·) 1.0)))
  | subtract =>
    match xs with
    | [x] => some (.ok (.number (-x)))
    | [x, y] => some (.ok (.number (x - y)))
    | _ => some (.error (.arityMismatch op.symbol (.range 1 2) xs.length))
  | divide => (firstTwo? xs).map fun (x, y) => divided (· / ·) x y
  | remainder => (firstTwo? xs).map fun (x, y) => divided floatRemainder x y
  | less => (firstTwo? xs).map fun (x, y) => .ok (.bool (x < y))
  | lessEqual => (firstTwo? xs).map fun (x, y) => .ok (.bool (x ≤ y))
  | greater => (firstTwo? xs).map fun (x, y) => .ok (.bool (y < x))
  | greaterEqual => (firstTwo? xs).map fun (x, y) => .ok (.bool (y ≤ x))
  | equal | notEqual | print | host _ => none

/-- The line that `print` writes: the arguments as printed, with one space
between them. -/
def printedLine (st : Store) (args : List Value) : String := " ".intercalate (args.map st.display)

/-- An operation on numbers: all arguments have to be numbers first. -/
def numeric? (st : Store) (op : NativeOp) (args : List Value) :
    Option (Except RuntimeError Value) :=
  match op.numbers st args with
  | .ok xs => op.arithmetic? xs
  | .error e => some (.error e)

/-- What an operation gives or fails with; `none` if it asks for an argument that is not
there. -/
def result? (st : Store) (op : NativeOp) (args : List Value) :
    Option (Except RuntimeError Value) :=
  match op with
  | print => some (.ok .null)
  | equal => (firstTwo? args).map fun (v, w) => .ok (.bool (v == w))
  | notEqual => (firstTwo? args).map fun (v, w) => .ok (.bool (v != w))
  | host f => some ((f.call st.told args).map Prod.fst)
  | add =>
    match concat? args with
    | some s => some (.ok (.str s))
    | none => add.numeric? st args
  | op => op.numeric? st args

/-- The lines that an operation writes. -/
def written (st : Store) (op : NativeOp) (args : List Value) : Array String :=
  match op with
  | print => #[printedLine st args]
  | host f =>
    match f.call st.told args with
    | .ok (_, lines) => lines
    | .error _ => #[]
  | _ => #[]

end NativeOp

/-- A call of a built-in function: its value, and the lines it writes. A call
that fails writes nothing. As many arguments as are accepted have to be enough for the
operation; there is no meaning for one that is not there, and undefined stands for it. -/
def Native.apply (st : Store) (f : Native) (args : List Value) :
    Except RuntimeError (Value × Array String) :=
  if f.arity.accepts args.length then
    ((f.op.result? st args).getD (.ok .undefined)).map fun v => (v, f.op.written st args)
  else .error (.arityMismatch f.name f.arity args.length)

end ScopeLisp
