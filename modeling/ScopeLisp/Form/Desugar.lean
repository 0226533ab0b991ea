/-
ScopeLisp.Form.Desugar — sugar written out.

Sugar is written out one step at a time: what stands among the operands stays
as it is.
-/
import ScopeLisp.Form.Basic

namespace ScopeLisp

namespace Sugar

/-- `(def name params body)` becomes `(var name (lambda params body))`. -/
def expandDefine (name : String) (params body : Expr) : Expr :=
  .form "var" [.symbol name, .form "lambda" [params, body]]

/-- Clauses become nested `if`s, the body of the last clause innermost. With
no clause at all the value is `null`. -/
def expandSwitch : List (Expr × Expr) → Expr
  | [] => .symbol "null"
  | [(_, body)] => body
  | (condition, body) :: c :: cs => .form "if" [condition, body, expandSwitch (c :: cs)]

/-- `(for init condition update body)` becomes
`(begin init (while condition (begin body update)))`. -/
def expandIterate (init condition update body : Expr) : Expr :=
  .block [init, .form "while" [condition, .block [body, update]]]

/-- `(set target (operator target operand))`. -/
def expandUpdate (target : Expr) (operator : String) (operand : Expr) : Expr :=
  .form "set" [target, .form operator [target, operand]]

/-- The expression that a sugared form stands for. -/
def expand : Sugar → Expr
  | define name params body => expandDefine name params body
  | switch clauses => expandSwitch clauses
  | iterate init condition update body => expandIterate init condition update body
  | increment target => expandUpdate target "+" (.number 1.0)
  | decrement target => expandUpdate target "-" (.number 1.0)
  | addAssign target delta => expandUpdate target "+" delta
  | subAssign target delta => expandUpdate target "-" delta

end Sugar

end ScopeLisp
