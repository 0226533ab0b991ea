/-
ScopeLisp.Syntax.Expr — expressions: nested lists of atoms, and their text.
-/
import ScopeLisp.Syntax.Literal
import ScopeLisp.Number.Layout

namespace ScopeLisp

/-- A program as it is read. The first item of a list says what the list
means. -/
inductive Expr
  | number (value : Float)
  | str (value : String)
  | symbol (name : String)
  | list (items : List Expr)

namespace Expr

/-- A list that starts with the symbol `head`. -/
def form (head : String) (operands : List Expr) : Expr := .list (.symbol head :: operands)

/-- A row of expressions as one. -/
def block (body : List Expr) : Expr := .form "begin" body

/-- The name, when the expression is a symbol. -/
def asSymbol? : Expr → Option String
  | .symbol name => some name
  | _ => none

/-- The items, when the expression is a list. -/
def asList? : Expr → Option (List Expr)
  | .list items => some items
  | _ => none

/-- The name at the head of a list. -/
def head? : Expr → Option String
  | .list (.symbol name :: _) => some name
  | _ => none

def isAtom : Expr → Bool
  | .list _ => false
  | _ => true

/-! ## Text -/

mutual

/-- The text of an expression, written before the characters `rest`. -/
def write : Expr → List Char → List Char
  | .number value, rest => formatChars (.ofFloat value) ++ rest
  | .str value, rest => '"' :: (escape value.toList ++ '"' :: rest)
  | .symbol name, rest => name.toList ++ rest
  | .list items, rest => '(' :: writeItems items (')' :: rest)

/-- The texts of expressions with one space between them, before `rest`. -/
def writeItems : List Expr → List Char → List Char
  | [], rest => rest
  | [e], rest => e.write rest
  | e :: f :: es, rest => e.write (' ' :: writeItems (f :: es) rest)

end

/-- The text of an expression. -/
def text (e : Expr) : String := String.ofList (e.write [])

/-! ## Equality -/

mutual

/-- Equality of expressions: numbers are compared as numbers, so the two zeros
are equal and what is not a number equals nothing. -/
def beq : Expr → Expr → Bool
  | .number a, .number b => a == b
  | .str a, .str b => a == b
  | .symbol a, .symbol b => a == b
  | .list as, .list bs => beqItems as bs
  | _, _ => false

def beqItems : List Expr → List Expr → Bool
  | [], [] => true
  | a :: as, b :: bs => a.beq b && beqItems as bs
  | _, _ => false

end

instance : BEq Expr := ⟨beq⟩

end Expr

end ScopeLisp
