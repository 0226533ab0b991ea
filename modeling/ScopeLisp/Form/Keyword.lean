/-
ScopeLisp.Form.Keyword — the names that make a list a special form.
-/

namespace ScopeLisp

/-- The nineteen special forms. `define`, `switch`, `iterate` and the four
updates are sugar for others. -/
inductive Keyword
  | block
  | declare
  | assign
  | branch
  | loop
  | define
  | switch
  | iterate
  | increment
  | decrement
  | addAssign
  | subAssign
  | lambda
  | classDecl
  | superclass
  | create
  | property
  | moduleDecl
  | importDecl
deriving DecidableEq

namespace Keyword

/-- How a keyword is written. -/
def name : Keyword → String
  | block => "begin"
  | declare => "var"
  | assign => "set"
  | branch => "if"
  | loop => "while"
  | define => "def"
  | switch => "switch"
  | iterate => "for"
  | increment => "++"
  | decrement => "--"
  | addAssign => "+="
  | subAssign => "-="
  | lambda => "lambda"
  | classDecl => "class"
  | superclass => "super"
  | create => "new"
  | property => "prop"
  | moduleDecl => "module"
  | importDecl => "import"

/-- The shape that messages ask for. -/
def shape : Keyword → String
  | block => "(begin body...)"
  | declare => "(var name value)"
  | assign => "(set name value) or (set (prop obj name) value)"
  | branch => "(if condition consequent alternate)"
  | loop => "(while condition body)"
  | define => "(def name (params...) body)"
  | switch => "(switch (condition expr)...)"
  | iterate => "(for init condition update body)"
  | increment => "(++ name)"
  | decrement => "(-- name)"
  | addAssign => "(+= name delta)"
  | subAssign => "(-= name delta)"
  | lambda => "(lambda (params...) body)"
  | classDecl => "(class Name Parent body)"
  | superclass => "(super ClassName)"
  | create => "(new Class args...)"
  | property => "(prop object name)"
  | moduleDecl => "(module Name body)"
  | importDecl => "(import Name)"

/-- Every keyword. -/
def all : List Keyword :=
  [block, declare, assign, branch, loop, define, switch, iterate, increment, decrement,
    addAssign, subAssign, lambda, classDecl, superclass, create, property, moduleDecl,
    importDecl]

/-- The keyword written as `name`, if there is one. -/
def ofName? (name : String) : Option Keyword := all.find? (·.name == name)

/-- A name is read as the keyword that is written so, and only as that. -/
theorem ofName?_eq_some_iff {name : String} {k : Keyword} :
    ofName? name = some k ↔ k.name = name := by
  constructor
  · intro h
    simpa using List.find?_some h
  · rintro rfl
    cases k <;> decide

end Keyword

end ScopeLisp
