/-
ScopeLisp.Form.Basic — what expressions mean: the closed set of forms that a
program is made of.

An expression is classified by its first item (`Form.classify`). Keywords come
before any binding of the same name; every other list that is not empty is an
application.
-/
import ScopeLisp.Form.Keyword
import ScopeLisp.Syntax.Expr

namespace ScopeLisp

/-! ## Forms -/

/-- What `set` writes to. -/
inductive Target
  /-- The nearest binding of a name. -/
  | variable (name : String)
  /-- A name in the record of an object. -/
  | property (object : Expr) (name : String)

/-- Forms that stand for others. -/
inductive Sugar
  /-- A named function. -/
  | define (name : String) (params body : Expr)
  /-- The body of the first clause whose condition is true; the condition of
  the last clause is not asked. -/
  | switch (clauses : List (Expr × Expr))
  | iterate (init condition update body : Expr)
  | increment (target : Expr)
  | decrement (target : Expr)
  | addAssign (target delta : Expr)
  | subAssign (target delta : Expr)

/-- An expression by meaning. -/
inductive Form
  | number (value : Float)
  | str (value : String)
  | symbol (name : String)
  | block (body : List Expr)
  | declare (name : String) (value : Expr)
  | assign (target : Target) (value : Expr)
  | branch (condition consequent alternate : Expr)
  | loop (condition body : Expr)
  | sugar (sugar : Sugar)
  | lambda (params : List String) (body : Expr)
  | classDecl (name : String) (parent body : Expr)
  | superclass (name : String)
  | create (ofClass : Expr) (args : List Expr)
  | property (object : Expr) (name : String)
  | moduleDecl (name : String) (body : Expr)
  | importDecl (name : String)
  | apply (callee : Expr) (args : List Expr)

/-- Why an expression has no meaning. -/
inductive FormError
  /-- The empty list. -/
  | empty
  /-- A keyword with operands that do not fit it. -/
  | malformed (keyword : Keyword) (form : Expr)

/-! ## Parts of forms -/

/-- The names of a parameter list. -/
def paramNames? (params : Expr) : Option (List String) := do
  (← params.asList?).mapM Expr.asSymbol?

/-- What an expression denotes as the target of `set`: a symbol, or a property
of an object. -/
def Target.ofExpr? : Expr → Option Target
  | .symbol name => some (.variable name)
  | .list [.symbol head, object, .symbol name] =>
    if head = Keyword.property.name then some (.property object name) else none
  | _ => none

/-- A clause of `switch`: a condition and a body. -/
def clause? : Expr → Option (Expr × Expr)
  | .list [condition, body] => some (condition, body)
  | _ => none

/-- The target expression itself, if it can be assigned to. -/
def assignable? (target : Expr) : Option Expr := (Target.ofExpr? target).map fun _ => target

/-! ## Classification -/

/-- The form of a keyword with operands, if they fit it. -/
def Keyword.form? : Keyword → List Expr → Option Form
  | block, body => some (.block body)
  | declare, [name, value] => name.asSymbol?.map (.declare · value)
  | assign, [target, value] => (Target.ofExpr? target).map (.assign · value)
  | branch, [condition, consequent, alternate] => some (.branch condition consequent alternate)
  | loop, [condition, body] => some (.loop condition body)
  | define, [name, params, body] => do
    let name ← name.asSymbol?
    let _ ← paramNames? params
    some (.sugar (.define name params body))
  | switch, clause :: clauses => ((clause :: clauses).mapM clause?).map (.sugar <| .switch ·)
  | iterate, [init, condition, update, body] =>
    some (.sugar (.iterate init condition update body))
  | increment, [target] => (assignable? target).map (.sugar <| .increment ·)
  | decrement, [target] => (assignable? target).map (.sugar <| .decrement ·)
  | addAssign, [target, delta] => (assignable? target).map (.sugar <| .addAssign · delta)
  | subAssign, [target, delta] => (assignable? target).map (.sugar <| .subAssign · delta)
  | lambda, [params, body] => (paramNames? params).map (.lambda · body)
  | classDecl, [name, parent, body] => name.asSymbol?.map (.classDecl · parent body)
  | superclass, [name] => name.asSymbol?.map .superclass
  | create, ofClass :: args => some (.create ofClass args)
  | property, [object, name] => name.asSymbol?.map (.property object ·)
  | moduleDecl, [name, body] => name.asSymbol?.map (.moduleDecl · body)
  | importDecl, [name] => name.asSymbol?.map .importDecl
  | _, _ => none

/-- What an expression means. -/
def Form.classify : Expr → Except FormError Form
  | .number value => .ok (.number value)
  | .str value => .ok (.str value)
  | .symbol name => .ok (.symbol name)
  | .list [] => .error .empty
  | .list (.symbol name :: operands) =>
    match Keyword.ofName? name with
    | none => .ok (.apply (.symbol name) operands)
    | some keyword =>
      match keyword.form? operands with
      | some form => .ok form
      | none => .error (.malformed keyword (.list (.symbol name :: operands)))
  | .list (callee :: args) => .ok (.apply callee args)

end ScopeLisp
