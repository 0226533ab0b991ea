/-
ScopeLisp.Eval.Step — the meaning of every form.

`step` evaluates one expression; wherever it has to evaluate another one, it
calls the evaluator that it is given. `evaluate` ties the knot: each level of
nesting takes one unit of fuel, and a loop runs at most as often as there is
fuel.
-/
import ScopeLisp.Eval.Operation
import ScopeLisp.Eval.State
import ScopeLisp.Form.Desugar
import ScopeLisp.Syntax.Read

namespace ScopeLisp

/-- An evaluator of expressions in scopes. -/
abbrev Evaluator := Expr → ScopeId → Eval Value

namespace Eval

/-! ## Rows of expressions -/

/-- Evaluates expressions in order; the value is that of the last one, or
`last` if there is none. -/
def sequence (eval : Evaluator) (env : ScopeId) (last : Value) : List Expr → Eval Value
  | [] => pure last
  | e :: es => do
    let v ← eval e env
    sequence eval env v es

/-- Evaluates expressions in order, for the values of all of them, which come
after those in `before`, newest first. -/
def arguments (eval : Evaluator) (env : ScopeId) (before : List Value) :
    List Expr → Eval (List Value)
  | [] => pure before.reverse
  | e :: es => do
    let v ← eval e env
    arguments eval env (v :: before) es

/-- Evaluates the body of a function, class or module, or a whole program. A
block does not open a scope here, so its declarations land in `env` itself. -/
def body (eval : Evaluator) (env : ScopeId) (e : Expr) : Eval Value :=
  match e with
  | .list (.symbol head :: es) =>
    if head = Keyword.block.name then sequence eval env .undefined es else eval e env
  | _ => eval e env

/-- Evaluates `e` as long as `condition` is true, at most `rounds` times. The
value is that of the last round, or `last` if there is none. -/
def loop (eval : Evaluator) (env : ScopeId) (condition e : Expr) : Nat → Value → Eval Value
  | rounds, last => do
    let c ← eval condition env
    if c.isTrue then
      match rounds with
      | 0 => starve
      | rounds + 1 => do
        let v ← eval e env
        loop eval env condition e rounds v
    else pure last

/-! ## Objects and classes -/

/-- Evaluates an expression whose value must be a scope. -/
def object (eval : Evaluator) (env : ScopeId) (operation : String) (e : Expr) :
    Eval ScopeId := do
  match ← eval e env with
  | .scope id => pure id
  | v => mismatch operation .object v

/-- The scope of a value that must be a class. -/
def expectClass (operation : String) (v : Value) : Eval ScopeId := fun s =>
  match v with
  | .scope id => if s.store.isClass id then (.value id, s) else mismatch operation .ofClass v s
  | _ => mismatch operation .ofClass v s

/-- The scope in which a class with the given parent is opened: the superclass,
or for `null` the scope of the declaration. -/
def classParent (env : ScopeId) (name : String) (v : Value) : Eval ScopeId := fun s =>
  match v with
  | .null => (.value env, s)
  | .scope id =>
    if s.store.isClass id then (.value id, s)
    else mismatch ("class " ++ name) .classOrNull v s
  | _ => mismatch ("class " ++ name) .classOrNull v s

/-! ## Calls -/

/-- Defines parameters in the scope of a call. -/
def bindParams (id : ScopeId) : List String → List Value → Eval Unit
  | p :: ps, v :: vs => do
    let _ ← define id p v
    bindParams id ps vs
  | _, _ => pure ()

/-- Calls a built-in function. -/
def callNative (f : Native) (args : List Value) : Eval Value := fun s =>
  match f.apply s.store args with
  | .ok (v, lines) => (.value v, { s with output := s.output ++ lines })
  | .error e => (.error e, s)

/-- Calls a closure: its body runs in a new scope inside the one that it was
made in, not inside that of the caller. -/
def callClosure (settings : Settings) (eval : Evaluator) (f : Closure) (args : List Value) :
    Eval Value := do
  if args.length ≠ f.arity then fail (.arityMismatch f.text (.exact f.arity) args.length)
  else
    let _ ← ask fun s =>
      if s.depth < settings.maxCallDepth then .ok () else .error (.stackExhausted s.depth)
    let activation ← openScope f.scope .activation
    bindParams activation f.params args
    asCall (body eval activation f.body)

/-- Calls a value with arguments. -/
def call (settings : Settings) (eval : Evaluator) (callee : Value) (args : List Value) :
    Eval Value :=
  match callee with
  | .native f => callNative f args
  | .closure f => callClosure settings eval f args
  | v => ask fun s => .error (.notCallable (s.store.describe v))

/-! ## Declarations -/

/-- Declares a class: its body runs in a scope inside its superclass. -/
def declareClass (eval : Evaluator) (env : ScopeId) (name : String) (parent e : Expr) :
    Eval Value := do
  let outer ← classParent env name (← eval parent env)
  let id ← openScope outer (.ofClass name)
  let _ ← body eval id e
  define env name (.scope id)

/-- Declares a module: its body runs in a scope inside that of the
declaration. -/
def declareModule (eval : Evaluator) (env : ScopeId) (name : String) (e : Expr) :
    Eval Value := do
  let id ← openScope env (.ofModule name)
  let _ ← body eval id e
  define env name (.scope id)

/-- Makes an instance of a class. Its constructor, which is found as any
property of the class, gets the instance and the arguments; a class without
one makes instances only without arguments. -/
def instantiate (settings : Settings) (eval : Evaluator) (env : ScopeId) (ofClass : Expr)
    (args : List Expr) : Eval Value := do
  let id ← expectClass "new" (← eval ofClass env)
  let self ← openScope id .ofInstance
  let values ← arguments eval env [.scope self] args
  let constructor? ← ask fun s => .ok (s.store.lookup? id "constructor")
  match constructor? with
  | some constructor =>
    let _ ← call settings eval constructor values
    pure (.scope self)
  | none => if args.isEmpty then pure (.scope self) else fail (.unbound "constructor")

/-! ## Imports -/

/-- The text of a module as a module declaration. -/
def moduleForm (settings : Settings) (name : String) : Except RuntimeError Expr :=
  match settings.modules.load name with
  | .ok text =>
    match Expr.ofProgram text with
    | .ok program => .ok (.form Keyword.moduleDecl.name [.symbol name, program])
    | .error e => .error (.moduleSyntax name e)
  | .error e => .error e

/-- The module with the given name, if it is kept. -/
def cached? (settings : Settings) (name : String) (s : State) : Option ScopeId :=
  if settings.memoize then s.cache.get? name else none

/-- Why an import may not start: the module is being imported already, or too
many imports are running. -/
def importRefused? (settings : Settings) (name : String) (s : State) : Option RuntimeError :=
  if s.importing.contains name then some (.circularImport (name :: s.importing).reverse)
  else if settings.maxCallDepth ≤ s.importing.length then
    some (.stackExhausted s.importing.length)
  else none

/-- Keeps an imported module, if modules are kept. -/
def keepModule (settings : Settings) (name : String) (v : Value) : Eval Value :=
  update fun s =>
    match settings.memoize, v with
    | true, .scope id => (v, { s with cache := s.cache.put name id })
    | _, _ => (v, s)

/-- Imports a module into the global scope: again if it is kept, or by
evaluating its text as a module declaration there. -/
def importModule (settings : Settings) (eval : Evaluator) (name : String) : Eval Value := do
  match ← ask fun s => .ok (cached? settings name s) with
  | some id => define State.globalId name (.scope id)
  | none =>
    let _ ← ask fun s =>
      match importRefused? settings name s with
      | some e => .error e
      | none => .ok ()
    let v ← asImport name do
      let form ← ask fun _ => moduleForm settings name
      eval form State.globalId
    keepModule settings name v

/-! ## Forms -/

/-- Evaluates a form. -/
def form (settings : Settings) (rounds : Nat) (eval : Evaluator) (env : ScopeId) :
    Form → Eval Value
  | .number value => pure (.number value)
  | .str value => pure (.str value)
  | .symbol name => lookup env name
  | .block es => do
    let id ← openScope env .block
    sequence eval id .undefined es
  | .declare name e => do
    let v ← eval e env
    define env name v
  | .assign (.property target name) e => do
    let id ← object eval env Keyword.assign.name target
    let v ← eval e env
    define id name v
  | .assign (.variable name) e => do
    let v ← eval e env
    assign env name v
  | .branch condition consequent alternate => do
    let c ← eval condition env
    if c.isTrue then eval consequent env else eval alternate env
  | .loop condition e => loop eval env condition e rounds .undefined
  | .sugar sugar => eval sugar.expand env
  | .lambda params e => do
    let serial ← freshSerial
    pure (.closure ⟨serial, params, e, env⟩)
  | .classDecl name parent e => declareClass eval env name parent e
  | .superclass name => do
    let id ← expectClass Keyword.superclass.name (← lookup env name)
    ask fun s => .ok (((s.store.parent? id).map Value.scope).getD .null)
  | .create ofClass args => instantiate settings eval env ofClass args
  | .property target name => do
    let id ← object eval env Keyword.property.name target
    lookup id name
  | .moduleDecl name e => declareModule eval env name e
  | .importDecl name => importModule settings eval name
  | .apply callee args => do
    let f ← eval callee env
    let values ← arguments eval env [] args
    call settings eval f values

/-- Evaluates an expression, with `eval` for the expressions in it. -/
def step (settings : Settings) (rounds : Nat) (eval : Evaluator) (e : Expr) (env : ScopeId) :
    Eval Value :=
  match Form.classify e with
  | .ok f => form settings rounds eval env f
  | .error e => fail (.ofFormError e)

/-- Evaluates an expression in a scope. -/
def evaluate (settings : Settings) : Nat → Evaluator
  | 0, _, _ => starve
  | fuel + 1, e, env => step settings fuel (evaluate settings fuel) e env

end Eval

end ScopeLisp
