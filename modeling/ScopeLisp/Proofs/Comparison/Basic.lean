/-
ScopeLisp.Proofs.Comparison.Basic — two runs of the evaluator, side by side.

What evaluation keeps, and what it does not depend on, is stated as a
comparison: a relation between the states of a left and a right run, and
predicates for the scopes, values, names and expressions that the runs may
meet. `Comparison.Lawful` asks what the single acts of the evaluator have to
keep (opening a scope, defining a name, starting a call, ...). The theorem
`Comparison.Lawful.step` says that then the evaluation of every expression
keeps it, if the nested evaluations do, and `Comparison.Lawful.evaluate` that
evaluation keeps it. An invariant of one run is the comparison of the run with
itself.

What a comparison may ask of a scope that is opened, or of a module that is
imported, can depend on the form that does so (`Form.Opens`,
`Comparison.Allows`).

Runs are families over the amount of fuel. A statement about them holds along a
filter of amounts: `pure n` speaks of one amount, `atTop` of all that are large
enough.
-/
import ScopeLisp.Proofs.Comparison.Alike
import Mathlib.Order.Filter.AtTopBot.Basic

namespace ScopeLisp

/-! ## Steps of a state -/

namespace State

/-- One more call is running. -/
def pushCall (s : State) : State := { s with depth := s.depth + 1 }

/-- A call has ended. -/
def popCall (s : State) : State := { s with depth := s.depth - 1 }

/-- One more import is running. -/
def pushImport (name : String) (s : State) : State :=
  { s with importing := name :: s.importing }

/-- An import has ended. -/
def popImport (s : State) : State := { s with importing := s.importing.tail }

/-- An imported module is kept. -/
def keep (name : String) (id : ScopeId) (s : State) : State :=
  { s with cache := s.cache.put name id }

def openScope (parent : ScopeId) (kind : ScopeKind) (s : State) : State :=
  { s with store := s.store.child parent kind }

def define (id : ScopeId) (name : String) (value : Value) (s : State) : State :=
  { s with store := s.store.define id name value }

/-- A serial number is given away. -/
def nextSerial (s : State) : State := { s with serials := s.serials + 1 }

def print (lines : Array String) (s : State) : State := { s with output := s.output ++ lines }

end State

/-- Scopes that programs can have as values. -/
def ScopeKind.IsObject : ScopeKind → Prop
  | .ofClass _ | .ofInstance | .ofModule _ => True
  | _ => False

/-- The end of a computation without a value: an error, or `none` for want of
fuel. -/
def Outcome.stopped {ε α : Type} : Option ε → Outcome ε α
  | some e => .error e
  | none => .outOfFuel

/-! ## Imports in the open -/

namespace Eval

theorem ask_bind {α β : Type} (f : State → Except RuntimeError α) (k : α → Eval β) (s : State) :
    (ask f >>= k) s =
      match f s with
      | .ok a => k a s
      | .error e => (.error e, s) := by
  simp only [Bind.bind, andThen, ask]
  cases f s <;> rfl

/-- What an import evaluates is a declaration of the module, with a text that could
be read as its body. -/
theorem moduleForm_eq_ok {c : Settings} {name : String} {e : Expr}
    (h : moduleForm c name = .ok e) :
    ∃ text program, c.modules name = .ok text ∧ Expr.ofProgram text = .ok program ∧
      e = .form Keyword.moduleDecl.name [.symbol name, program] := by
  unfold moduleForm at h
  split at h
  · next text htext =>
    split at h
    · next program hprogram =>
      cases h
      exact ⟨text, program, ModuleSource.load_eq_ok.1 htext, hprogram, rfl⟩
    · cases h
  · cases h

theorem moduleForm_of_reads {c : Settings} {name text : String} {program : Expr}
    (htext : c.modules name = .ok text) (hprogram : Expr.ofProgram text = .ok program) :
    moduleForm c name = .ok (.form Keyword.moduleDecl.name [.symbol name, program]) := by
  simp only [moduleForm, ModuleSource.load_eq_ok.2 htext, hprogram]

theorem ask_eq_value {α : Type} {f : State → Except RuntimeError α} {s s' : State} {a : α}
    (h : ask f s = (.value a, s')) : f s = .ok a ∧ s' = s := by
  unfold ask at h
  split at h
  · next hf =>
    cases h
    exact ⟨hf, rfl⟩
  · cases h

theorem bind_eq_value {α β : Type} {x : Eval α} {f : α → Eval β} {s s' : State} {b : β}
    (h : (x >>= f) s = (.value b, s')) :
    ∃ a s₁, x s = (.value a, s₁) ∧ f a s₁ = (.value b, s') := by
  simp only [Bind.bind, andThen] at h
  rcases hx : x s with ⟨a | e | _, s₁⟩ <;> rw [hx] at h
  · exact ⟨a, s₁, rfl, h⟩
  · cases h
  · cases h

/-- Reads the text of a module and evaluates it as a module declaration. -/
def evalModule (c : Settings) (eval : Evaluator) (name : String) : Eval Value := do
  let form ← ask fun _ => moduleForm c name
  eval form State.globalId

/-- An import does one of three things: it binds the module that is kept, or it
is refused, or it evaluates the module. -/
theorem importModule_eq (c : Settings) (eval : Evaluator) (name : String) (s : State) :
    importModule c eval name s =
      match cached? c name s with
      | some id => define State.globalId name (.scope id) s
      | none =>
        match importRefused? c name s with
        | some e => (.error e, s)
        | none =>
          (do keepModule c name (← asImport name (evalModule c eval name)) : Eval Value) s := by
  unfold importModule
  rw [ask_bind]
  cases cached? c name s with
  | some id => rfl
  | none =>
    dsimp only
    rw [ask_bind]
    cases importRefused? c name s <;> rfl

theorem asImport_eq {α : Type} (name : String) (x : Eval α) (s : State) :
    asImport name x s = ((x (s.pushImport name)).1, (x (s.pushImport name)).2.popImport) := rfl

/-- A module declaration binds the scope in which it has run the body. -/
theorem declareModule_eq (eval : Evaluator) (env : ScopeId) (name : String) (e : Expr) (s : State) :
    declareModule eval env name e s =
      match body eval s.store.size e (s.openScope env (.ofModule name)) with
      | (.value _, s') => (.value (.scope s.store.size), s'.define env name (.scope s.store.size))
      | (.error error, s') => (.error error, s')
      | (.outOfFuel, s') => (.outOfFuel, s') := by
  simp only [declareModule, Bind.bind, andThen, Eval.openScope, update, State.openScope]
  rcases body eval s.store.size e { s with store := s.store.child env (.ofModule name) } with
    ⟨_ | _ | _, s'⟩ <;> rfl

end Eval

/-! ## The parts of a form -/

/-- What stands in a form: `now` holds of the expressions that are evaluated
with it, `later` of the body of a function, `name` of every name. -/
def Form.Parts (now later : Expr → Prop) (name : String → Prop) : Form → Prop
  | .number _ | .str _ => True
  | .symbol n | .superclass n | .importDecl n => name n
  | .block es => ∀ e ∈ es, now e
  | .declare n e | .moduleDecl n e | .assign (.variable n) e => name n ∧ now e
  | .assign (.property o n) e => now o ∧ name n ∧ now e
  | .branch c a b => now c ∧ now a ∧ now b
  | .loop c e => now c ∧ now e
  | .sugar s => now s.expand
  | .lambda ps e => (∀ p ∈ ps, name p) ∧ later e
  | .classDecl n p e => name n ∧ now p ∧ now e
  | .create k args => now k ∧ ∀ a ∈ args, now a
  | .property o n => now o ∧ name n
  | .apply f args => now f ∧ ∀ a ∈ args, now a

theorem Form.parts_of_forall {now : Expr → Prop} (h : ∀ e, now e) (f : Form) :
    f.Parts now (fun _ => True) (fun _ => True) := by
  cases f with
  | assign target e => cases target <;> simp [Parts, h]
  | _ => simp [Parts, h]

/-! ## The scopes that a form opens -/

/-- A form that is evaluated in `env` from `s` opens a class, an instance or a
module of its own inside a scope, when the store has come to be the given one.
The expressions in the form, which `eval` evaluates, may open more. -/
inductive Form.Opens (eval : Evaluator) (env : ScopeId) (s : State) :
    Form → Store → ScopeId → ScopeKind → Prop
  | baseClass {name : String} {parent e : Expr} {s' : State}
    (value : eval parent env s = (.value .null, s')) :
    Opens eval env s (.classDecl name parent e) s'.store env (.ofClass name)
  | subclass {name : String} {parent e : Expr} {s' : State} {p : ScopeId}
    (value : eval parent env s = (.value (.scope p), s')) (isClass : s'.store.isClass p = true) :
    Opens eval env s (.classDecl name parent e) s'.store p (.ofClass name)
  | ofInstance {k : Expr} {args : List Expr} {s' : State} {p : ScopeId}
    (value : eval k env s = (.value (.scope p), s')) (isClass : s'.store.isClass p = true) :
    Opens eval env s (.create k args) s'.store p .ofInstance
  | ofModule {name : String} {e : Expr} :
    Opens eval env s (.moduleDecl name e) s.store env (.ofModule name)

namespace Eval

theorem expectClass_eq_value {operation : String} {v : Value} {id : ScopeId} {s s' : State}
    (h : expectClass operation v s = (.value id, s')) :
    s' = s ∧ v = .scope id ∧ s.store.isClass id = true := by
  unfold expectClass at h
  split at h
  · split at h
    · next isClass =>
      cases h
      exact ⟨rfl, rfl, isClass⟩
    · cases h
  · cases h

theorem classParent_eq_value {env p : ScopeId} {name : String} {v : Value} {s s' : State}
    (h : classParent env name v s = (.value p, s')) :
    s' = s ∧ (v = .null ∧ p = env ∨ v = .scope p ∧ s.store.isClass p = true) := by
  unfold classParent at h
  split at h
  · cases h
    exact ⟨rfl, .inl ⟨rfl, rfl⟩⟩
  · split at h
    · next isClass =>
      cases h
      exact ⟨rfl, .inr ⟨rfl, isClass⟩⟩
    · cases h
  · cases h

end Eval

/-! ## Comparisons -/

/-- What is kept between a left and a right run. Scopes, values, names and code
are those of the left run; the fields after `rel` ask nothing unless they are
given. -/
structure Comparison where
  /-- The states of the two runs. -/
  rel : State → State → Prop
  /-- How the state of the left run may change. -/
  grow : State → State → Prop := fun _ _ => True
  scope : Store → ScopeId → Prop := fun _ _ => True
  /-- Scopes in which expressions are evaluated, so that declarations go there. -/
  home : Store → ScopeId → Prop := fun _ _ => True
  value : Store → Value → Prop := fun _ _ => True
  /-- The scope of a module that was loaded under a name. -/
  loaded : Store → String → ScopeId → Prop := fun _ _ _ => True
  name : String → Prop := fun _ => True
  code : Expr → Prop := fun _ => True
  /-- The expressions that may be evaluated from a state. -/
  enter : State → Expr → Prop := fun _ _ => True
  /-- The scopes that may be opened, by what encloses them and their kind, from a
  store of the right run. -/
  opens : Store → ScopeId → ScopeKind → Prop := fun _ _ _ => True
  /-- The modules that may be imported. -/
  imports : String → Prop := fun _ => True
  /-- How both runs may end without a value. -/
  fails : Option RuntimeError → Prop := fun _ => True
  /-- How the left run may end when the right one goes on. -/
  ahead : Option RuntimeError → Prop := fun _ => False

namespace Comparison

open Filter

variable {α β : Type}

/-- A change that a comparison allows, with the running calls and imports as
before. -/
structure Grows (C : Comparison) (s s' : State) : Prop where
  depth : s'.depth = s.depth
  importing : s'.importing = s.importing
  grow : C.grow s s'

/-- Two families of computations, from two states, agree along the filter `l`:
they end alike, in states that correspond, or the left one ends early. A value
is as `V` says. -/
inductive Agree (C : Comparison) (l : Filter Nat) (V : Store → α → Prop)
    (x y : Nat → Eval α) (s t : State) : Prop
  | value {a : α} {s' t' : State} (left : ∀ᶠ n in l, x n s = (.value a, s'))
      (right : ∀ᶠ n in l, y n t = (.value a, t')) (rel : C.rel s' t') (grows : C.Grows s s')
      (holds : V s'.store a)
  | stopped {f : Option RuntimeError} {s' t' : State}
      (left : ∀ᶠ n in l, x n s = (.stopped f, s')) (right : ∀ᶠ n in l, y n t = (.stopped f, t'))
      (rel : C.rel s' t') (grows : C.Grows s s') (fails : C.fails f)
  | ahead {f : Option RuntimeError} {s' : State} (left : ∀ᶠ n in l, x n s = (.stopped f, s'))
      (ahead : C.ahead f)

/-- An expression may be evaluated in a scope. A block opens a scope for what is
declared in it, so that it may be evaluated in one that is no home. -/
def Hosts (C : Comparison) (st : Store) (env : ScopeId) (e : Expr) : Prop :=
  C.home st env ∨ C.scope st env ∧ ∃ es, Form.classify e = .ok (.block es)

/-- Two families of evaluators agree wherever the comparison lets them be
asked. -/
def EvalAgree (C : Comparison) (l : Filter Nat) (ev₁ ev₂ : Nat → Evaluator) : Prop :=
  ∀ e env s t, C.rel s t → C.Hosts s.store env e → C.code e → C.enter s e →
    C.Agree l C.value (fun n => ev₁ n e env) (fun n => ev₂ n e env) s t

/-- What an import gives: a scope was loaded under the name of the module. -/
def Imported (C : Comparison) (name : String) (st : Store) (v : Value) : Prop :=
  C.value st v ∧ ∀ id, v = .scope id → C.loaded st name id

/-- Two families of evaluators agree on the module declarations that imports
evaluate in the global scope, which need not be a home of expressions. -/
def LoadAgree (C : Comparison) (c : Settings) (l : Filter Nat) (ev₁ ev₂ : Nat → Evaluator) :
    Prop :=
  ∀ name e s t, C.rel s t → C.name name → C.imports name → Eval.moduleForm c name = .ok e →
    C.enter s e →
    C.Agree l (C.Imported name) (fun n => ev₁ n e State.globalId)
      (fun n => ev₂ n e State.globalId) s t

/-- A form may be evaluated by the right run: the comparison lets it open what it
opens and import what it imports. -/
structure Allows (C : Comparison) (l : Filter Nat) (ev : Nat → Evaluator) (env : ScopeId)
    (t : State) (f : Form) : Prop where
  opens : ∀ {st p k}, (∀ᶠ n in l, f.Opens (ev n) env t st p k) → C.opens st p k
  imports : ∀ {name}, f = .importDecl name → C.imports name

/-- The comparison lets every form be evaluated from every state. -/
structure Free (C : Comparison) : Prop where
  enter : ∀ s e, C.enter s e
  opens : ∀ st p k, C.opens st p k
  imports : ∀ name, C.imports name

theorem Free.allows {C : Comparison} (h : C.Free) (l : Filter Nat) (ev : Nat → Evaluator)
    (env : ScopeId) (t : State) (f : Form) : C.Allows l ev env t f :=
  ⟨fun _ => h.opens _ _ _, fun _ => h.imports _⟩

/-- What the acts of the evaluator keep, under the settings `c` of the left run
and `d` of the right one. -/
structure Lawful (C : Comparison) (c d : Settings) : Prop where
  -- Settings
  memoize : c.memoize = d.memoize
  moduleForm : ∀ {name}, C.name name → Eval.moduleForm c name = Eval.moduleForm d name
  moduleCode : ∀ {name e}, C.name name → Eval.moduleForm c name = .ok e → C.code e
  limit_le : c.maxCallDepth ≤ d.maxCallDepth
  /-- At the limit of the left run both end, or the left one ends early. -/
  limit : ∀ {s t k}, C.rel s t → k = s.depth ∨ k = s.importing.length → c.maxCallDepth ≤ k →
    d.maxCallDepth ≤ k ∧ C.fails (some (.stackExhausted k)) ∨ C.ahead (some (.stackExhausted k))
  error : ∀ {e}, (∀ k, e ≠ .stackExhausted k) → C.fails (some e)
  -- Changes
  grow_refl : ∀ s, C.grow s s
  grow_trans : ∀ {s₁ s₂ s₃}, C.grow s₁ s₂ → C.grow s₂ s₃ → C.grow s₁ s₃
  scope_mono : ∀ {s s' id}, C.grow s s' → C.scope s.store id → C.scope s'.store id
  home_mono : ∀ {s s' id}, C.grow s s' → C.home s.store id → C.home s'.store id
  home_scope : ∀ {st id}, C.home st id → C.scope st id
  loaded_mono : ∀ {s s' name id}, C.grow s s' → C.loaded s.store name id →
    C.loaded s'.store name id
  value_mono : ∀ {s s' v}, C.grow s s' → C.value s.store v → C.value s'.store v
  enter_mono : ∀ {s s' e}, C.Grows s s' → C.enter s e → C.enter s' e
  -- Code
  parts : ∀ {e f}, C.code e → Form.classify e = .ok f → f.Parts C.code C.code C.name
  block : ∀ {s es}, C.enter s (.block es) → ∀ e ∈ es, C.enter s e
  constructorName : C.name "constructor"
  -- Values
  plain : ∀ {st v}, v.IsPlain → C.value st v
  closure : ∀ {st f}, C.value st (.closure f) ↔
    C.scope st f.scope ∧ C.code f.body ∧ ∀ p ∈ f.params, C.name p
  object : ∀ {st id}, C.value st (.scope id) → C.home st id
  -- Reading
  alike : ∀ {s t}, C.rel s t → s.Alike t
  global : ∀ {s t}, C.rel s t → C.scope s.store State.globalId
  lookup : ∀ {s t id name}, C.rel s t → C.scope s.store id → C.name name →
    s.store.lookup? id name = t.store.lookup? id name
  found : ∀ {s t id name v}, C.rel s t → C.scope s.store id → C.name name →
    s.store.lookup? id name = some v → C.value s.store v
  resolve : ∀ {s t id name}, C.rel s t → C.scope s.store id → C.name name →
    s.store.resolve? id name = t.store.resolve? id name
  superclass : ∀ {e name s t id p}, C.code e → Form.classify e = .ok (.superclass name) →
    C.rel s t → C.value s.store (.scope id) → s.store.isClass id = true →
    s.store.parent? id = some p → C.value s.store (.scope p)
  cached : ∀ {s t name id}, C.rel s t → s.cache.get? name = some id →
    C.value s.store (.scope id) ∧ C.loaded s.store name id
  -- Writing
  block_opens : ∀ {st p}, C.opens st p .block
  call_opens : ∀ {st p}, C.opens st p .activation
  openScope : ∀ {s t p k}, C.rel s t → C.scope s.store p → C.opens t.store p k →
    C.rel (s.openScope p k) (t.openScope p k) ∧ C.grow s (s.openScope p k) ∧
      C.home (s.openScope p k).store s.store.size ∧
      (k.IsObject → C.value (s.openScope p k).store (.scope s.store.size))
  loaded : ∀ {s t name}, C.rel s t →
    C.loaded (s.openScope State.globalId (.ofModule name)).store name s.store.size
  define : ∀ {s t id name v}, C.rel s t → C.home s.store id → C.name name → C.value s.store v →
    C.rel (s.define id name v) (t.define id name v) ∧ C.grow s (s.define id name v)
  assign : ∀ {s t id name o v}, C.rel s t → C.scope s.store id → C.name name →
    C.value s.store v → s.store.resolve? id name = some o →
    C.rel (s.define o name v) (t.define o name v) ∧ C.grow s (s.define o name v)
  bindModule : ∀ {s t name id}, C.rel s t → C.name name → C.imports name →
    C.value s.store (.scope id) →
    C.rel (s.define State.globalId name (.scope id)) (t.define State.globalId name (.scope id)) ∧
      C.grow s (s.define State.globalId name (.scope id))
  serial : ∀ {s t}, C.rel s t → C.rel s.nextSerial t.nextSerial ∧ C.grow s s.nextSerial
  print : ∀ {s t lines}, C.rel s t →
    C.rel (s.print lines) (t.print lines) ∧ C.grow s (s.print lines)
  -- Calls
  call : ∀ {s t}, C.rel s t → s.depth < c.maxCallDepth → C.rel s.pushCall t.pushCall
  call_enter : ∀ {s t e}, C.rel s t → s.depth < c.maxCallDepth → C.code e → C.enter s.pushCall e
  call_back : ∀ {s t s' t'}, C.rel s t → C.rel s' t' → C.Grows s.pushCall s' →
    C.rel s'.popCall t'.popCall ∧ C.grow s s'.popCall
  -- Imports
  load : ∀ {s t name}, C.rel s t → C.name name → Eval.cached? c name s = none →
    Eval.importRefused? c name s = none → C.rel (s.pushImport name) (t.pushImport name)
  load_enter : ∀ {s t name e}, C.rel s t → Eval.importRefused? c name s = none →
    Eval.moduleForm c name = .ok e → C.enter (s.pushImport name) e
  load_back : ∀ {s t s' t' name}, C.rel s t → C.rel s' t' → C.Grows (s.pushImport name) s' →
    C.rel s'.popImport t'.popImport ∧ C.grow s s'.popImport
  keep : ∀ {s t s' t' name id}, C.rel s t → C.name name → c.memoize = true →
    Eval.cached? c name s = none → Eval.importRefused? c name s = none →
    C.rel s' t' → C.Grows (s.pushImport name) s' → C.value s'.store (.scope id) →
    C.loaded s'.store name id →
    C.rel (s'.popImport.keep name id) (t'.popImport.keep name id) ∧
      C.grow s (s'.popImport.keep name id)

/-! ## Ends of runs -/

section Runs

variable {C : Comparison} {c d : Settings} {l : Filter Nat}
variable {V : Store → α → Prop} {W : Store → β → Prop} {s t : State}

theorem Agree.congr {x x' y y' : Nat → Eval α} (hx : ∀ᶠ n in l, x n = x' n)
    (hy : ∀ᶠ n in l, y n = y' n) (h : C.Agree l V x y s t) : C.Agree l V x' y' s t := by
  have change : ∀ {z z' : Nat → Eval α} {u r}, (∀ᶠ n in l, z n = z' n) →
      (∀ᶠ n in l, z n u = r) → ∀ᶠ n in l, z' n u = r := by
    intro z z' u r hz h
    filter_upwards [hz, h] with n hz h
    rw [← hz, h]
  cases h with
  | value left right rel grows holds =>
    exact .value (change hx left) (change hy right) rel grows holds
  | stopped left right rel grows fails =>
    exact .stopped (change hx left) (change hy right) rel grows fails
  | ahead left ahead => exact .ahead (change hx left) ahead

/-- Agreement in a comparison that asks for more. -/
theorem Agree.imp {D : Comparison} {W : Store → α → Prop} {x y : Nat → Eval α}
    (h : C.Agree l V x y s t) (rel : ∀ s t, C.rel s t → D.rel s t)
    (grow : ∀ s s', C.grow s s' → D.grow s s') (holds : ∀ st a, V st a → W st a)
    (fails : ∀ f, C.fails f → D.fails f) (ahead : ∀ f, C.ahead f → D.ahead f) :
    D.Agree l W x y s t := by
  have grows : ∀ {s'}, C.Grows s s' → D.Grows s s' := fun h =>
    ⟨h.depth, h.importing, grow _ _ h.grow⟩
  cases h with
  | value left right h hg hv => exact .value left right (rel _ _ h) (grows hg) (holds _ _ hv)
  | stopped left right h hg hf => exact .stopped left right (rel _ _ h) (grows hg) (fails _ hf)
  | ahead left hf => exact .ahead left (ahead _ hf)

/-- Agreement on a value of which less is asked. -/
theorem Agree.mono {W : Store → α → Prop} {x y : Nat → Eval α} (h : C.Agree l V x y s t)
    (holds : ∀ st a, V st a → W st a) : C.Agree l W x y s t :=
  h.imp (fun _ _ h => h) (fun _ _ h => h) holds (fun _ h => h) fun _ h => h

/-- A family may be counted differently. -/
theorem agree_map {g : Nat → Nat} {x y : Nat → Eval α} :
    C.Agree (l.map g) V x y s t ↔ C.Agree l V (fun n => x (g n)) (fun n => y (g n)) s t := by
  constructor <;> intro h <;> cases h with
  | value left right rel grows holds => exact .value left right rel grows holds
  | stopped left right rel grows fails => exact .stopped left right rel grows fails
  | ahead left ahead => exact .ahead left ahead

/-- What agreement for one amount of fuel says of the left run, when that cannot
end early. -/
theorem Agree.left {n : Nat} {x y : Nat → Eval α} (h : C.Agree (Pure.pure n) V x y s t)
    (noAhead : ∀ f, ¬ C.ahead f) :
    (∃ t', C.rel (x n s).2 t') ∧ C.Grows s (x n s).2 ∧
      (∀ a, (x n s).1 = .value a → V (x n s).2.store a) ∧
      ∀ f, (x n s).1 = .stopped f → C.fails f := by
  cases h with
  | value left right rel grows holds =>
    rw [Filter.eventually_pure] at left
    rw [left]
    refine ⟨⟨_, rel⟩, grows, fun b hb => ?_, fun f hf => ?_⟩
    · cases hb
      exact holds
    · cases f <;> cases hf
  | stopped left right rel grows fails =>
    rw [Filter.eventually_pure] at left
    rw [left]
    refine ⟨⟨_, rel⟩, grows, fun b hb => ?_, fun f hf => ?_⟩
    · rename_i f s' t'
      cases f <;> cases hb
    · rename_i f' s' t'
      cases f' <;> cases f <;> cases hf <;> exact fails
  | ahead left ahead => exact absurd ahead (noAhead _)

theorem agree_pure_succ {n : Nat} {x y : Nat → Eval α} :
    C.Agree (Pure.pure (n + 1)) V x y s t ↔
      C.Agree (Pure.pure n) V (fun n => x (n + 1)) (fun n => y (n + 1)) s t := by
  rw [← Filter.map_pure (· + 1), agree_map]

namespace Lawful

variable (L : C.Lawful c d)
include L

theorem hosts_scope {st : Store} {env : ScopeId} {e : Expr} (h : C.Hosts st env e) :
    C.scope st env :=
  h.elim L.home_scope And.left

theorem grows_refl (s : State) : C.Grows s s := ⟨rfl, rfl, L.grow_refl s⟩

theorem grows_trans {s₁ s₂ s₃ : State} (h : C.Grows s₁ s₂) (h' : C.Grows s₂ s₃) :
    C.Grows s₁ s₃ :=
  ⟨h'.depth.trans h.depth, h'.importing.trans h.importing, L.grow_trans h.grow h'.grow⟩

theorem agree_after {x y : Nat → Eval α} {s' t' : State} (hg : C.Grows s s')
    (h : C.Agree l V x y s' t') {x' y' : Nat → Eval α}
    (hx : ∀ᶠ n in l, x' n s = x n s') (hy : ∀ᶠ n in l, y' n t = y n t') :
    C.Agree l V x' y' s t := by
  have change : ∀ {z z' : Nat → Eval α} {u u' r}, (∀ᶠ n in l, z' n u = z n u') →
      (∀ᶠ n in l, z n u' = r) → ∀ᶠ n in l, z' n u = r := by
    intro z z' u u' r hz h
    filter_upwards [hz, h] with n hz h
    rw [hz, h]
  cases h with
  | value left right rel grows holds =>
    exact .value (change hx left) (change hy right) rel (L.grows_trans hg grows) holds
  | stopped left right rel grows fails =>
    exact .stopped (change hx left) (change hy right) rel (L.grows_trans hg grows) fails
  | ahead left ahead => exact .ahead (change hx left) ahead

/-- Computations that agree, with what follows them and may look back at how the
right one has ended. -/
theorem bindAfter {x y : Nat → Eval α} {f g : Nat → α → Eval β} (h : C.Agree l V x y s t)
    (next : ∀ a s' t', C.rel s' t' → C.Grows s s' → V s'.store a →
      (∀ᶠ n in l, y n t = (.value a, t')) →
      C.Agree l W (fun n => f n a) (fun n => g n a) s' t') :
    C.Agree l W (fun n => x n >>= f n) (fun n => y n >>= g n) s t := by
  cases h with
  | @value a s' t' left right rel grows holds =>
    refine L.agree_after grows (next a s' t' rel grows holds right) ?_ ?_
    · filter_upwards [left] with n hn
      simp only [Bind.bind, Eval.andThen, hn]
    · filter_upwards [right] with n hn
      simp only [Bind.bind, Eval.andThen, hn]
  | @stopped f s' t' left right rel grows fails =>
    refine .stopped (f := f) ?_ ?_ rel grows fails
    · filter_upwards [left] with n hn
      cases f <;> simp only [Bind.bind, Eval.andThen, hn, Outcome.stopped]
    · filter_upwards [right] with n hn
      cases f <;> simp only [Bind.bind, Eval.andThen, hn, Outcome.stopped]
  | @ahead e s' left ahead =>
    have left' : ∀ᶠ n in l, (x n >>= f n) s = (.stopped e, s') := by
      filter_upwards [left] with n hn
      cases e <;> simp only [Bind.bind, Eval.andThen, hn, Outcome.stopped]
    exact .ahead left' ahead

/-- Computations that agree, with what follows them. -/
theorem bind {x y : Nat → Eval α} {f g : Nat → α → Eval β} (h : C.Agree l V x y s t)
    (next : ∀ a s' t', C.rel s' t' → C.Grows s s' → V s'.store a →
      C.Agree l W (fun n => f n a) (fun n => g n a) s' t') :
    C.Agree l W (fun n => x n >>= f n) (fun n => y n >>= g n) s t :=
  L.bindAfter h fun a s' t' rel grows holds _ => next a s' t' rel grows holds

theorem pure {a : α} (rel : C.rel s t) (holds : V s.store a) :
    C.Agree l V (fun _ => Pure.pure a) (fun _ => Pure.pure a) s t :=
  .value (.of_forall fun _ => rfl) (.of_forall fun _ => rfl) rel (L.grows_refl s) holds

theorem fail {e : RuntimeError} (rel : C.rel s t) (h : ∀ k, e ≠ .stackExhausted k) :
    C.Agree l V (fun _ => Eval.fail e) (fun _ => Eval.fail e) s t :=
  .stopped (f := some e) (.of_forall fun _ => rfl) (.of_forall fun _ => rfl) rel
    (L.grows_refl s) (L.error h)

/-- A question that both states answer alike, or the left one with an error that
ends its run early. -/
theorem askOrAhead {f g : State → Except RuntimeError α} (rel : C.rel s t)
    (h : (∃ a, f s = .ok a ∧ g t = .ok a ∧ V s.store a) ∨
      (∃ e, f s = .error e ∧ (g t = .error e ∧ C.fails (some e) ∨ C.ahead (some e)))) :
    C.Agree l V (fun _ => Eval.ask f) (fun _ => Eval.ask g) s t := by
  have answer : ∀ {k : State → Except RuntimeError α} {u e}, k u = .error e →
      Eval.ask k u = (.stopped (some e), u) := by
    intro k u e he
    simp only [Eval.ask, he, Outcome.stopped]
  rcases h with ⟨a, hf, hg, holds⟩ | ⟨e, hf, ⟨hg, fails⟩ | ahead⟩
  · refine .value (a := a) (.of_forall fun _ => ?_) (.of_forall fun _ => ?_) rel
      (L.grows_refl s) holds
    · simp only [Eval.ask, hf]
    · simp only [Eval.ask, hg]
  · exact .stopped (.of_forall fun _ => answer hf) (.of_forall fun _ => answer hg) rel
      (L.grows_refl s) fails
  · exact .ahead (.of_forall fun _ => answer hf) ahead

/-- A question that both states answer alike. -/
theorem ask {f g : State → Except RuntimeError α} (rel : C.rel s t) (same : f s = g t)
    (holds : ∀ a, f s = .ok a → V s.store a)
    (error : ∀ e, f s = .error e → ∀ k, e ≠ .stackExhausted k) :
    C.Agree l V (fun _ => Eval.ask f) (fun _ => Eval.ask g) s t := by
  refine L.askOrAhead rel ?_
  cases h : f s with
  | ok a => exact .inl ⟨a, rfl, same ▸ h, holds a h⟩
  | error e => exact .inr ⟨e, rfl, .inl ⟨same ▸ h, L.error (error e h)⟩⟩

/-! ## Acts on the store -/

theorem openScope_agree_of {p : ScopeId} {k : ScopeKind} {V : Store → ScopeId → Prop}
    (rel : C.rel s t) (hp : C.scope s.store p) (hk : C.opens t.store p k)
    (holds : C.home (s.openScope p k).store s.store.size →
      (k.IsObject → C.value (s.openScope p k).store (.scope s.store.size)) →
      V (s.openScope p k).store s.store.size) :
    C.Agree l V (fun _ => Eval.openScope p k) (fun _ => Eval.openScope p k) s t := by
  obtain ⟨rel', grow, home, value⟩ := L.openScope rel hp hk
  refine .value (.of_forall fun _ => rfl) (.of_forall fun _ => ?_) rel' ⟨rfl, rfl, grow⟩
    (holds home value)
  simp only [Eval.openScope, Eval.update, (L.alike rel).size, State.openScope]

theorem openScope_agree {p : ScopeId} {k : ScopeKind} (rel : C.rel s t)
    (hp : C.scope s.store p) (hk : C.opens t.store p k) :
    C.Agree l (fun st id => C.home st id ∧ (k.IsObject → C.value st (.scope id)))
      (fun _ => Eval.openScope p k) (fun _ => Eval.openScope p k) s t :=
  L.openScope_agree_of rel hp hk And.intro

/-- The scope of a module that an import loads. -/
theorem openModule_agree {name : String} (rel : C.rel s t)
    (hk : C.opens t.store State.globalId (.ofModule name)) :
    C.Agree l (fun st id => C.home st id ∧ C.value st (.scope id) ∧ C.loaded st name id)
      (fun _ => Eval.openScope State.globalId (.ofModule name))
      (fun _ => Eval.openScope State.globalId (.ofModule name)) s t :=
  L.openScope_agree_of rel (L.global rel) hk fun home value => ⟨home, value trivial, L.loaded rel⟩

theorem define_agree {id : ScopeId} {name : String} {v : Value} (rel : C.rel s t)
    (hid : C.home s.store id) (hname : C.name name) (hv : C.value s.store v) :
    C.Agree l C.value (fun _ => Eval.define id name v) (fun _ => Eval.define id name v) s t := by
  obtain ⟨rel', grow⟩ := L.define rel hid hname hv
  exact .value (.of_forall fun _ => rfl) (.of_forall fun _ => rfl) rel' ⟨rfl, rfl, grow⟩
    (L.value_mono grow hv)

theorem bindModule_agree {name : String} {id : ScopeId} (rel : C.rel s t) (hname : C.name name)
    (himports : C.imports name) (hid : C.value s.store (.scope id))
    (hloaded : C.loaded s.store name id) :
    C.Agree l (C.Imported name) (fun _ => Eval.define State.globalId name (.scope id))
      (fun _ => Eval.define State.globalId name (.scope id)) s t := by
  obtain ⟨rel', grow⟩ := L.bindModule rel hname himports hid
  refine .value (.of_forall fun _ => rfl) (.of_forall fun _ => rfl) rel' ⟨rfl, rfl, grow⟩
    ⟨L.value_mono grow hid, ?_⟩
  rintro _ ⟨⟩
  exact L.loaded_mono grow hloaded

theorem assign_agree {id : ScopeId} {name : String} {v : Value} (rel : C.rel s t)
    (hid : C.scope s.store id) (hname : C.name name) (hv : C.value s.store v) :
    C.Agree l C.value (fun _ => Eval.assign id name v) (fun _ => Eval.assign id name v) s t := by
  have same := L.resolve rel hid hname
  cases h : s.store.resolve? id name with
  | none =>
    refine L.agree_after (L.grows_refl s)
      (L.fail (e := .unbound name) rel (by intro k hk; cases hk))
      (.of_forall fun _ => ?_) (.of_forall fun _ => ?_)
    · simp only [Eval.assign, h, Eval.fail]
    · simp only [Eval.assign, ← same, h, Eval.fail]
  | some owner =>
    obtain ⟨rel', grow⟩ := L.assign rel hid hname hv h
    refine .value (.of_forall fun _ => ?_) (.of_forall fun _ => ?_) rel' ⟨rfl, rfl, grow⟩
      (L.value_mono grow hv)
    · simp only [Eval.assign, h]
      rfl
    · simp only [Eval.assign, ← same, h]
      rfl

theorem lookup_agree {id : ScopeId} {name : String} (rel : C.rel s t)
    (hid : C.scope s.store id) (hname : C.name name) :
    C.Agree l C.value (fun _ => Eval.lookup id name) (fun _ => Eval.lookup id name) s t := by
  refine L.ask rel (by rw [L.lookup rel hid hname]) ?_ ?_
  · intro v hv
    cases h : s.store.lookup? id name with
    | none => simp [h] at hv
    | some w =>
      simp only [h, Except.ok.injEq] at hv
      exact hv ▸ L.found rel hid hname h
  · intro e he k hk
    subst hk
    cases h : s.store.lookup? id name <;> simp [h] at he

theorem freshSerial_agree (rel : C.rel s t) :
    C.Agree l (fun _ _ => True) (fun _ => Eval.freshSerial) (fun _ => Eval.freshSerial) s t := by
  obtain ⟨rel', grow⟩ := L.serial rel
  refine .value (.of_forall fun _ => rfl) (.of_forall fun _ => ?_) rel' ⟨rfl, rfl, grow⟩ trivial
  simp only [Eval.freshSerial, Eval.update, (L.alike rel).serials, State.nextSerial]

theorem mismatch_agree {operation : String} {expected : Expected} {v : Value}
    (rel : C.rel s t) :
    C.Agree l V (fun _ => Eval.mismatch operation expected v)
      (fun _ => Eval.mismatch operation expected v) s t := by
  refine L.ask rel (by rw [(L.alike rel).describe]) ?_ ?_
  · intro a h
    cases h
  · intro e h k hk
    subst hk
    cases h

end Lawful

end Runs

end Comparison

end ScopeLisp
