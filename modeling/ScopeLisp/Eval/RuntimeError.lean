/-
ScopeLisp.Eval.RuntimeError — what can abort an evaluation.
-/
import ScopeLisp.Form.Basic
import ScopeLisp.Scope.Arity
import ScopeLisp.Syntax.Error

namespace ScopeLisp

/-- What an operation asks of an operand. -/
inductive Expected
  | number
  | object
  | ofClass
  | classOrNull
deriving DecidableEq

def Expected.text : Expected → String
  | number => "a number"
  | object => "an object"
  | ofClass => "a class"
  | classOrNull => "a class or null"

/-- The cause of a failed evaluation. Values are named by their descriptions
at the time of the failure. -/
inductive RuntimeError
  | unbound (name : String)
  /-- The empty list was evaluated. -/
  | emptyForm
  | malformed (keyword : Keyword) (form : Expr)
  | divisionByZero
  /-- As many calls or imports were running as the limit allows. -/
  | stackExhausted (depth : Nat)
  | typeMismatch (operation : String) (expected : Expected) (found : String)
  | notCallable (found : String)
  | arityMismatch (callee : String) (expected : Arity) (found : Nat)
  | moduleNotFound (name : String)
  | moduleUnreadable (name reason : String)
  | moduleSyntax (name : String) (error : SyntaxError)
  /-- The imports that are running, outermost first, and the one that would
  start again. -/
  | circularImport (chain : List String)

namespace RuntimeError

/-- The failure of classification as a failure of evaluation. -/
def ofFormError : FormError → RuntimeError
  | .empty => .emptyForm
  | .malformed keyword form => .malformed keyword form

/-- The stable name of a cause. -/
def code : RuntimeError → String
  | unbound _ => "runtime::unbound_variable"
  | emptyForm => "runtime::unimplemented_form"
  | malformed .. => "runtime::malformed_form"
  | divisionByZero => "runtime::division_by_zero"
  | stackExhausted _ => "runtime::stack_exhausted"
  | typeMismatch .. => "runtime::type_mismatch"
  | notCallable _ => "runtime::not_callable"
  | arityMismatch .. => "runtime::arity_mismatch"
  | moduleNotFound _ => "runtime::module_not_found"
  | moduleUnreadable .. => "runtime::module_load"
  | moduleSyntax .. => "runtime::module_syntax"
  | circularImport _ => "runtime::circular_import"

def message : RuntimeError → String
  | unbound name => "Variable `" ++ name ++ "` is not defined"
  | emptyForm => "Unimplemented form: ()"
  | malformed keyword _ => "Malformed `" ++ keyword.name ++ "`: expected " ++ keyword.shape
  | divisionByZero => "Division by zero"
  | stackExhausted depth => "Stack exhausted after " ++ toString depth ++ " nested calls"
  | typeMismatch operation expected found =>
    "`" ++ operation ++ "` expected " ++ expected.text ++ ", found " ++ found
  | notCallable found => "Value " ++ found ++ " is not callable"
  | arityMismatch callee expected found =>
    "`" ++ callee ++ "` expects " ++ expected.text ++ " argument(s), got " ++ toString found
  | moduleNotFound name => "Module `" ++ name ++ "` not found"
  | moduleUnreadable name reason => "Failed to load module `" ++ name ++ "`: " ++ reason
  | moduleSyntax name _ => "Module `" ++ name ++ "` does not parse"
  | circularImport chain => "Circular import: " ++ " -> ".intercalate chain

def help? : RuntimeError → Option String
  | unbound name => some ("declare it first with `(var " ++ name ++ " ...)`")
  | malformed _ form => some ("found `" ++ form.text ++ "`")
  | stackExhausted _ => some "raise `limits.max_call_depth` if the recursion is intentional"
  | moduleNotFound _ =>
    some "check `modules.search_paths` in eva.toml or pass --module-path"
  | circularImport _ =>
    some "a module cannot import itself, directly or through other modules"
  | _ => none

end RuntimeError

end ScopeLisp
