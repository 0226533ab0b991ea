/-
ScopeLisp.Proofs.Requests — what can be asked of an interpreter, and the states
that it can get into.

A request is a text to run, a program, an expression with a scope, or a value
with arguments, and its answer is that of the interpreter (`Interp.answer_run`,
`Interp.answer_program`, `Interp.answer_eval_global`, `Interp.answer_call`).
`Interp.Reachable` holds of an interpreter that is new or has answered any row
of requests, failed ones included; a request whose evaluation does not end has no
answer and leads nowhere.
-/
import ScopeLisp.Proofs.Comparison.Control

namespace ScopeLisp

/-! ## Requests -/

/-- What can be asked of an interpreter. -/
inductive Request
  /-- Run a text as a program at top level. -/
  | run (source : String)
  /-- Evaluate a program at top level. -/
  | program (e : Expr)
  /-- Evaluate an expression in a scope. -/
  | eval (e : Expr) (env : ScopeId)
  | call (callee : Value) (args : List Value)

namespace Request

/-- The computation that a request stands for, over an evaluator; a text may be
one that cannot be read. -/
def compute (c : Settings) (eval : Evaluator) : Request → Except SyntaxError (Eval Value)
  | run source => (Expr.ofProgram source).map (Eval.body eval State.globalId)
  | program e => .ok (Eval.body eval State.globalId e)
  | .eval e env => .ok (eval e env)
  | call callee args => .ok (Eval.call c eval callee args)

end Request

namespace Interp

/-- Answers a request with the help of some evaluator. -/
def answerWith (i : Interp) (eval : Evaluator) (q : Request) : Answer × Interp :=
  match q.compute i.settings eval with
  | .error e => (.error (.unread e), i)
  | .ok x => i.perform x

/-- Answers a request. -/
def answer (i : Interp) (fuel : Nat) (q : Request) : Answer × Interp :=
  i.answerWith (Eval.evaluate i.settings fuel) q

/-- Answers a row of requests, each with its own amount of fuel. -/
def answerAllWith (i : Interp) (eval : Nat → Evaluator) :
    List (Nat × Request) → List Answer × Interp
  | [] => ([], i)
  | (fuel, q) :: rest =>
    let (a, i) := i.answerWith (eval fuel) q
    let (as, i) := i.answerAllWith eval rest
    (a :: as, i)

theorem answer_run (i : Interp) (fuel : Nat) (source : String) :
    i.answer fuel (.run source) = i.run fuel source := by
  simp only [answer, answerWith, run, Request.compute]
  cases Expr.ofProgram source <;> rfl

theorem answer_program (i : Interp) (fuel : Nat) (e : Expr) :
    i.answer fuel (.program e) = i.evalProgram fuel e := rfl

theorem answer_eval_global (i : Interp) (fuel : Nat) (e : Expr) :
    i.answer fuel (.eval e State.globalId) = i.evalExpr fuel e := rfl

theorem answer_call (i : Interp) (fuel : Nat) (callee : Value) (args : List Value) :
    i.answer fuel (.call callee args) = i.call fuel callee args := rfl

end Interp

/-! ## Reachable interpreters -/

/-- The scopes that a value leads to directly are there. -/
def Value.Known (st : Store) : Value → Prop
  | .scope id => id < st.size
  | .closure f => f.scope < st.size
  | _ => True

/-- The scopes that a request speaks of are there. -/
def Request.Known (st : Store) : Request → Prop
  | run _ | program _ => True
  | .eval _ env => env < st.size
  | call callee args => callee.Known st ∧ ∀ v ∈ args, v.Known st

/-- The values of a prelude lead to no scope but the global one. -/
def Prelude.Known (p : Prelude) : Prop := ∀ e ∈ p.entries.entries, e.2.Known (.root .global)

namespace Prelude

variable {p : Prelude}

theorem Known.constant (h : p.Known) (name : String) {v : Value} (hv : v.Known (.root .global)) :
    (p.constant name v).Known :=
  Bindings.forall_mem_entries_put hv h

theorem Known.native (h : p.Known) (name : String) (arity : Arity) (op : NativeOp) :
    (p.native name arity op).Known :=
  Bindings.forall_mem_entries_put trivial h

/-- The standard prelude has no scopes in it. -/
theorem standard_known : standard.Known := by
  have constants_known : ∀ c ∈ constants, c.2.Known (.root .global) := by
    simp [constants, Value.Known]
  have start : (constants.foldl (fun p c => p.constant c.1 c.2) empty).Known :=
    List.foldlRecOn _ _ (fun _ h => nomatch h) fun _ h c hc => h.constant _ (constants_known c hc)
  exact List.foldlRecOn _ _ start fun _ h _ _ => h.native _ _ _

end Prelude

/-- Interpreters that are new, or come from a reachable one by a request that
was answered, be it with a value or with an error. -/
inductive Interp.Reachable : Interp → Prop
  | new (c : Settings) {p : Prelude} (known : p.Known) : Reachable (.new c p)
  | answer {i : Interp} {fuel : Nat} {q : Request} (from_ : i.Reachable)
      (known : q.Known i.state.store) (ends : (i.answer fuel q).1 ≠ .outOfFuel) :
      Reachable (i.answer fuel q).2

/-! ## Fresh states -/

namespace State

variable {p : Prelude}

/-- What holds of a global scope without names, and goes on holding when an entry
of the prelude is defined, holds of a fresh state. -/
theorem fresh_induction {M : Store → Prop} (root : M (.root .global))
    (define : ∀ {st name v}, (name, v) ∈ p.entries.entries → M st → M (st.define globalId name v)) :
    M (fresh p).store :=
  List.foldlRecOn _ _ root fun _ hst _ he => define he hst

/-- A fresh state has one scope. -/
theorem size_fresh (p : Prelude) : (fresh p).store.size = 1 :=
  fresh_induction (M := fun st => st.size = 1) (Store.size_root _) fun _ h => by
    rw [Store.size_define, h]

/-- Its scope is the global one. -/
theorem extends_fresh (p : Prelude) : (Store.root .global).Extends (fresh p).store :=
  fresh_induction (M := (Store.root .global).Extends) (.refl _) fun _ h => h.trans (.define ..)

theorem kind?_fresh {id : ScopeId} {k : ScopeKind} :
    (fresh p).store.kind? id = some k ↔ id = globalId ∧ k = .global := by
  have top : (fresh p).store.kind? globalId = some .global :=
    (extends_fresh p).kind globalId (Nat.lt_one_iff.2 rfl)
  constructor
  · intro h
    obtain rfl : id = globalId := Nat.lt_one_iff.1 (size_fresh p ▸ Store.lt_size_of_kind? h)
    exact ⟨rfl, Option.some.inj (h.symm.trans top)⟩
  · rintro ⟨rfl, rfl⟩
    exact top

end State

/-- Settings with a module in memory whose text is empty. -/
def blankModule : Settings := ⟨2, true, .ofMemory ⟨[("Blank", "")]⟩⟩

/-- No module there has anything in it. -/
theorem ofProgram_blankModule {name text : String} (h : blankModule.modules name = .ok text) :
    Expr.ofProgram text = .ok (.block []) := by
  have empty : text = "" := by
    by_cases blank : name = "Blank"
    · subst blank
      cases h
      rfl
    · have other : (name == "Blank") = false := beq_eq_false_iff_ne.2 blank
      simp [blankModule, ModuleSource.ofMemory, Bindings.get?, List.lookup_cons, other] at h
  subst empty
  with_unfolding_all rfl

/-! ## Comparing answers -/

namespace Comparison

variable {C : Comparison} {c d : Settings} {l : Filter Nat} {ev₁ ev₂ : Nat → Evaluator}
variable {s t : State}

/-- What a request speaks of is as a comparison asks. -/
def Admits (C : Comparison) (s : State) : Request → Prop
  | .run source =>
    ∀ e, Expr.ofProgram source = .ok e →
      C.home s.store State.globalId ∧ C.code e ∧ C.enter s e
  | .program e => C.home s.store State.globalId ∧ C.code e ∧ C.enter s e
  | .eval e env => C.Hosts s.store env e ∧ C.code e ∧ C.enter s e
  | .call callee args => C.value s.store callee ∧ ∀ v ∈ args, C.value s.store v

/-- A comparison of control asks nothing of requests. -/
theorem annotated_admits {β : Type} (text : β → Array String) (I : β → State → Prop)
    (fails ahead : Option RuntimeError → Prop) (s : State) (q : Request) :
    (annotated text I fails ahead).Admits s q := by
  cases q <;> simp [Admits, Hosts, annotated]

theorem control_admits (I : State → Prop) (fails ahead : Option RuntimeError → Prop) (s : State)
    (q : Request) : (control I fails ahead).Admits s q := by
  rw [control_eq_annotated]
  exact annotated_admits ..

/-- The computations of a request agree, if there is one. -/
theorem Lawful.request_agree (L : C.Lawful c d) (hev : C.EvalAgree l ev₁ ev₂) (rel : C.rel s t)
    {q : Request} (hq : C.Admits s q) :
    (∃ e, ∀ n, q.compute c (ev₁ n) = .error e ∧ q.compute d (ev₂ n) = .error e) ∨
      ∃ x y, (∀ n, q.compute c (ev₁ n) = .ok (x n) ∧ q.compute d (ev₂ n) = .ok (y n)) ∧
        C.Agree l C.value x y s t := by
  cases q with
  | run source =>
    simp only [Request.compute]
    cases h : Expr.ofProgram source with
    | error e => exact .inl ⟨e, fun n => ⟨rfl, rfl⟩⟩
    | ok e =>
      obtain ⟨hhome, hcode, henter⟩ := hq e h
      exact .inr ⟨_, _, fun n => ⟨rfl, rfl⟩, L.body_agree hev rel hhome hcode henter⟩
  | program e =>
    exact .inr ⟨_, _, fun n => ⟨rfl, rfl⟩, L.body_agree hev rel hq.1 hq.2.1 hq.2.2⟩
  | eval e env => exact .inr ⟨_, _, fun n => ⟨rfl, rfl⟩, hev e env s t rel hq.1 hq.2.1 hq.2.2⟩
  | call callee args =>
    exact .inr ⟨_, _, fun n => ⟨rfl, rfl⟩, L.call_agree hev rel hq.1 hq.2⟩

end Comparison

/-! ## Computations that end -/

namespace Eval

open Filter

variable {α : Type}

/-- With enough fuel, a computation ends so. -/
def Ends (x : Nat → Eval α) (s : State) (r : Outcome RuntimeError α) (s' : State) : Prop :=
  ∀ᶠ n in atTop, x n s = (r, s')

theorem Ends.of_succ {x : Nat → Eval α} {s s' : State} {r : Outcome RuntimeError α}
    (h : Ends (fun n => x (n + 1)) s r s') : Ends x s r s' := by
  rw [Ends, ← map_add_atTop_eq_nat 1]
  exact h

theorem Ends.bind {β : Type} {x : Nat → Eval α} {f : Nat → α → Eval β} {s s₁ s₂ : State} {a : α}
    {r : Outcome RuntimeError β} (h : Ends x s (.value a) s₁) (h' : Ends (f · a) s₁ r s₂) :
    Ends (fun n => x n >>= f n) s r s₂ := by
  filter_upwards [h, h'] with n hn hn'
  simp only [Bind.bind, andThen, hn, hn']

theorem Ends.bind_error {β : Type} {x : Nat → Eval α} {f : Nat → α → Eval β} {s s' : State}
    {e : RuntimeError} (h : Ends x s (.error e) s') :
    Ends (fun n => x n >>= f n) s (.error e) s' := by
  filter_upwards [h] with n hn
  simp only [Bind.bind, andThen, hn]

end Eval

/-! ## Answers -/

namespace Interp

/-- The end of a computation as an answer. -/
def answerOf : Outcome RuntimeError Value → Answer
  | .value v => .value v
  | .error e => .error (.raised e)
  | .outOfFuel => .outOfFuel

theorem perform_eq (i : Interp) (x : Eval Value) :
    i.perform x = (answerOf (x i.state).1, { i with state := (x i.state).2 }) := by
  unfold perform
  rcases x i.state with ⟨_ | _ | _, s⟩ <;> rfl

theorem answerWith_ok {i : Interp} {eval : Evaluator} {q : Request} {x : Eval Value}
    (h : q.compute i.settings eval = .ok x) :
    i.answerWith eval q = (answerOf (x i.state).1, { i with state := (x i.state).2 }) := by
  rw [answerWith, h]
  exact perform_eq i x

theorem answerWith_error {i : Interp} {eval : Evaluator} {q : Request} {e : SyntaxError}
    (h : q.compute i.settings eval = .error e) :
    i.answerWith eval q = (.error (.unread e), i) := by
  rw [answerWith, h]

theorem answer_settings (i : Interp) (fuel : Nat) (q : Request) :
    (i.answer fuel q).2.settings = i.settings := by
  unfold answer answerWith
  split
  · rfl
  · rw [perform_eq]

/-- An answer does not change when there is more fuel for it. -/
theorem answer_mono {i : Interp} {n : Nat} (k : Nat) {q : Request}
    (h : (i.answer n q).1 ≠ .outOfFuel) : i.answer (n + k) q = i.answer n q := by
  have laws := (Comparison.moreFuel_laws i.settings).lawful
  have admits : Comparison.moreFuel.Admits i.state q := Comparison.control_admits ..
  rcases laws.request_agree (Comparison.moreFuel_agree i.settings n k) ⟨rfl, trivial⟩ admits with
    ⟨e, unread⟩ | ⟨x, y, computes, agree⟩
  · rw [answer, answer, answerWith_error (unread n).1, answerWith_error (unread n).2]
  · rw [answer, answerWith_ok (computes n).1] at h
    rw [answer, answer, answerWith_ok (computes n).1, answerWith_ok (computes n).2]
    rcases agree.control_cases with same | ⟨f, rfl, starved⟩
    · rw [same]
    · exact absurd (congrArg answerOf starved) h

/-- The interpreter with other lines before those that were printed. -/
def after (i : Interp) (lines : Array String) : Interp := { i with state := i.state.after lines }

/-- Where evaluations agree with and without a note before the output, answers do. -/
theorem answer_annotated {β : Type} {text : β → Array String} {I : β → State → Prop}
    {fails : Option RuntimeError → Prop} {i : Interp} {ev : Nat → Evaluator} {fuel : Nat} {note : β}
    (L : (Comparison.annotated text I fails fun _ => False).Lawful i.settings i.settings)
    (agree : (Comparison.annotated text I fails fun _ => False).EvalAgree (Pure.pure fuel) ev
      (Eval.evaluate i.settings)) (state : I note i.state) (q : Request) :
    ∃ note', (i.after (text note)).answerWith (ev fuel) q =
        ((i.answer fuel q).1, (i.answer fuel q).2.after (text note')) ∧
      I note' (i.answer fuel q).2.state := by
  have admits := Comparison.annotated_admits text I fails (fun _ => False)
    (i.after (text note)).state q
  rcases L.request_agree agree ⟨note, rfl, state⟩ admits with ⟨e, unread⟩ | ⟨x, y, computes, agree⟩
  · have left : (i.after (text note)).answerWith _ q = _ := answerWith_error (unread fuel).1
    have right : i.answer fuel q = _ := answerWith_error (unread fuel).2
    rw [left, right]
    exact ⟨note, rfl, state⟩
  · have left : (i.after (text note)).answerWith _ q = _ := answerWith_ok (computes fuel).1
    have right : i.answer fuel q = _ := answerWith_ok (computes fuel).2
    rw [left, right]
    rcases agree.annotated_cases with ⟨note', same, state'⟩ | ⟨_, never, -⟩
    · have same : x fuel (i.after (text note)).state = _ := same
      rw [same]
      exact ⟨note', rfl, state'⟩
    · exact never.elim

/-- Evaluators that agree, with neither ahead of the other, give the same answers. -/
theorem answerWith_eq_of_agree {i : Interp} {I : State → Prop}
    {fails : Option RuntimeError → Prop} {ev₁ ev₂ : Nat → Evaluator} {fuel : Nat}
    (L : (Comparison.control I fails fun _ => False).Lawful i.settings i.settings)
    (agree : (Comparison.control I fails fun _ => False).EvalAgree (Pure.pure fuel) ev₁ ev₂)
    (h : I i.state) (q : Request) : i.answerWith (ev₁ fuel) q = i.answerWith (ev₂ fuel) q := by
  rcases L.request_agree agree ⟨rfl, h⟩ (Comparison.control_admits ..) with
    ⟨e, unread⟩ | ⟨x, y, computes, agree⟩
  · rw [answerWith_error (unread fuel).1, answerWith_error (unread fuel).2]
  · rw [answerWith_ok (computes fuel).1, answerWith_ok (computes fuel).2]
    rcases agree.control_cases with same | ⟨f, ahead, -⟩
    · rw [same]
    · exact ahead.elim

/-- A request is answered: the answer, and the interpreter after it. -/
def Answers (i : Interp) (q : Request) (a : Answer) (i' : Interp) : Prop :=
  a ≠ .outOfFuel ∧ ∃ fuel, i.answer fuel q = (a, i')

/-- From some amount of fuel on, the answer is given. -/
theorem Answers.exists_forall {i i' : Interp} {q : Request} {a : Answer} (h : i.Answers q a i') :
    ∃ n, ∀ k, i.answer (n + k) q = (a, i') := by
  obtain ⟨ends, n, hn⟩ := h
  exact ⟨n, fun k => (answer_mono k (by rwa [hn])).trans hn⟩

/-- There is one answer at most. -/
theorem Answers.unique {i : Interp} {q : Request} {a a' : Answer} {i₁ i₂ : Interp}
    (h : i.Answers q a i₁) (h' : i.Answers q a' i₂) : a = a' ∧ i₁ = i₂ := by
  obtain ⟨n, hn⟩ := h.exists_forall
  obtain ⟨m, hm⟩ := h'.exists_forall
  have same : (a, i₁) = (a', i₂) := by rw [← hn m, ← hm n, Nat.add_comm]
  exact ⟨congrArg Prod.fst same, congrArg Prod.snd same⟩

/-- A request is answered when its computation ends. -/
theorem Answers.of_ends {i : Interp} {q : Request} {x : Nat → Eval Value} {s : State}
    {r : Outcome RuntimeError Value}
    (computes : ∀ fuel, q.compute i.settings (Eval.evaluate i.settings fuel) = .ok (x fuel))
    (ends : Eval.Ends x i.state r s) (value : r ≠ .outOfFuel) :
    i.Answers q (answerOf r) { i with state := s } := by
  obtain ⟨fuel, hfuel⟩ := ends.exists
  refine ⟨?_, fuel, ?_⟩
  · cases r <;> simp [answerOf] at value ⊢
  · rw [answer, answerWith_ok (computes fuel), hfuel]

end Interp

end ScopeLisp
