/-
ScopeLisp.Scope.Value — what expressions evaluate to.

Functions and scopes are objects: two are equal only when they are the same
one. A scope is known by its number in the store, a function by the serial
number it was made with.
-/
import ScopeLisp.Scope.Host

namespace ScopeLisp

/-- The number of a scope in its store. -/
abbrev ScopeId := Nat

/-- What a built-in function does. -/
inductive NativeOp
  | add
  | subtract
  | multiply
  | divide
  | remainder
  | less
  | lessEqual
  | greater
  | greaterEqual
  | equal
  | notEqual
  | print
  /-- What a function of the host does. -/
  | host (function : HostFunction)

/-- A host function that answers how many arguments it is given. -/
def NativeOp.countArguments : NativeOp :=
  .host
    { answer := fun arguments => .ok (.datum (.number (Float.ofNat arguments.length)), #[])
      withinLimit := fun _ _ => nofun }

/-- A built-in function, of the language or of the host. -/
structure Native where
  serial : Nat
  name : String
  arity : Arity
  op : NativeOp

/-- A function written in a program, with the scope it was made in. -/
structure Closure where
  serial : Nat
  params : List String
  body : Expr
  scope : ScopeId

inductive Value
  /-- The value of an empty block and of a loop without iterations. -/
  | undefined
  | null
  | bool (value : Bool)
  | number (value : Float)
  | str (value : String)
  | native (function : Native)
  | closure (function : Closure)
  /-- A class, an instance, a module or any other scope. -/
  | scope (id : ScopeId)

/-- The datum as a value. -/
def Datum.value : Datum → Value
  | undefined => .undefined
  | null => .null
  | bool value => .bool value
  | number value => .number value
  | str value => .str value

/-- How many arguments a closure takes. -/
def Closure.arity (c : Closure) : Nat := c.params.length

/-- How a closure is shown. -/
def Closure.text (c : Closure) : String := "<lambda (" ++ " ".intercalate c.params ++ ")>"

namespace Value

/-- Whether the value selects the consequent of `if` and keeps `while` going:
only the boolean true does. -/
def isTrue : Value → Bool
  | bool value => value
  | _ => false

def asNumber? : Value → Option Float
  | number value => some value
  | _ => none

def asBool? : Value → Option Bool
  | bool value => some value
  | _ => none

def asStr? : Value → Option String
  | str value => some value
  | _ => none

def asScope? : Value → Option ScopeId
  | scope id => some id
  | _ => none

/-- Equality of values: numbers as numbers, functions and scopes by identity,
and values of different types never. -/
def same : Value → Value → Bool
  | undefined, undefined => true
  | null, null => true
  | bool a, bool b => a == b
  | number a, number b => a == b
  | str a, str b => a == b
  | native f, native g => f.serial == g.serial
  | closure f, closure g => f.serial == g.serial
  | scope i, scope j => i == j
  | _, _ => false

instance : BEq Value := ⟨same⟩

end Value

end ScopeLisp
