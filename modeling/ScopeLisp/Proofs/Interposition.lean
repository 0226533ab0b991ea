/-
ScopeLisp.Proofs.Interposition — evaluation with something between an
expression and its evaluation.

`Eval.through` evaluates as `Eval.evaluate` does, but everything that is
evaluated, nested expressions too, goes through a wrapper first. Since nothing
in a program can catch an error, a wrapper that fails wherever it is given some
kind of evaluation tells whether a request meets one (`Interp.Meets`).

An invariant that holds as long as no such evaluation is met gives a choice: the
request meets one, or the invariant holds after it (`Invariant.Kept.meets_or`).
Where no such evaluation can be entered, the wrapper is never noticed
(`Invariant.Kept.answer_divert`).
-/
import ScopeLisp.Proofs.Comparison.Invariant
import ScopeLisp.Proofs.Requests

namespace ScopeLisp

namespace Eval

/-- Evaluates expressions, each through a wrapper. -/
def through (c : Settings) (wrap : Expr → ScopeId → Eval Value → Eval Value) : Nat → Evaluator
  | 0, _, _ => starve
  | fuel + 1, e, env => wrap e env (step c fuel (through c wrap fuel) e env)

open Classical in
/-- Gives an alarm instead of some evaluations. -/
noncomputable def divert (P : Expr → ScopeId → State → Prop) (alarm : Eval Value) (e : Expr)
    (env : ScopeId) (x : Eval Value) : Eval Value := fun s =>
  if P e env s then alarm s else x s

end Eval

namespace Comparison

variable {C : Comparison} {c : Settings}

/-- Evaluation through a wrapper agrees with evaluation without it, if the wrapper
keeps the agreement of every single evaluation; that can be had where the form
is one that the comparison allows. -/
theorem Lawful.through_agree (L : C.Lawful c c)
    (wrap : Expr → ScopeId → Eval Value → Eval Value) (starves : C.fails none)
    (enter : ∀ s e, C.enter s e)
    (wraps : ∀ {n e env s t V}, C.rel s t → C.scope s.store env → C.code e →
      ((∀ f, Form.classify e = .ok f → C.Allows (Pure.pure n) (Eval.evaluate c) env t f) →
        C.Agree (Pure.pure n) V (fun n => Eval.step c n (Eval.through c wrap n) e env)
          (fun n => Eval.step c n (Eval.evaluate c n) e env) s t) →
      C.Agree (Pure.pure n) V (fun n => wrap e env (Eval.step c n (Eval.through c wrap n) e env))
        (fun n => Eval.step c n (Eval.evaluate c n) e env) s t) (n : Nat) :
    C.EvalAgree (Pure.pure n) (Eval.through c wrap) (Eval.evaluate c) ∧
      C.LoadAgree c (Pure.pure n) (Eval.through c wrap) (Eval.evaluate c) := by
  induction n with
  | zero =>
    constructor
    · intro e env s t rel _ _ _
      exact .stopped (f := none) rfl rfl rel (L.grows_refl s) starves
    · intro name e s t rel _ _ _ _
      exact .stopped (f := none) rfl rfl rel (L.grows_refl s) starves
  | succ n ih =>
    have rounds : Rounds C (Pure.pure n) (fun n => n) (fun n => n) :=
      rounds_pure (.inl ⟨starves, rfl⟩)
    constructor
    · intro e env s t rel henv hcode _
      rw [agree_pure_succ]
      exact wraps rel (L.hosts_scope henv) hcode fun allows =>
        L.step ih.1 ih.2 rel henv hcode (fun _ _ _ => rounds)
          (fun f _ => f.parts_of_forall (enter s)) allows
    · intro name e s t rel hname himports he _
      rw [agree_pure_succ]
      exact wraps rel (L.global rel) (L.moduleCode hname he) fun allows =>
        L.step_load ih.1 rel hname himports he
          (fun f _ => f.parts_of_forall (enter s)) allows

end Comparison

/-! ## Requests that meet an evaluation -/

namespace Interp

/-- An expression is evaluated, in a scope and from a state that are as `P` says,
in the course of a request: if all such evaluations fail, the request does. -/
def Meets (i : Interp) (fuel : Nat) (q : Request) (P : Expr → ScopeId → State → Prop) : Prop :=
  ∀ error, (i.answerWith (Eval.through i.settings (Eval.divert P (Eval.fail error)) fuel) q).1 =
    .error (.raised error)

end Interp

namespace Invariant

open Filter

variable {I : Invariant} {c : Settings} {P : Expr → ScopeId → State → Prop}

/-- The expressions and values of a request are as an invariant asks. -/
def Admits (I : Invariant) (st : Store) : Request → Prop
  | .run source =>
    ∀ e, Expr.ofProgram source = .ok e → I.home st State.globalId ∧ I.code e
  | .program e => I.home st State.globalId ∧ I.code e
  | .eval e env =>
    (I.home st env ∨ I.scope st env ∧ ∃ es, Form.classify e = .ok (.block es)) ∧ I.code e
  | .call callee args => I.value st callee ∧ ∀ v ∈ args, I.value st v

theorem Admits.comparison {s : State} {q : Request} (h : I.Admits s.store q)
    (ahead : Option RuntimeError → Prop) : (I.comparison ahead).Admits s q := by
  cases q with
  | run source => exact fun e he => ⟨(h e he).1, (h e he).2, trivial⟩
  | program e => exact ⟨h.1, h.2, trivial⟩
  | eval e env => exact ⟨h.1, h.2, trivial⟩
  | call callee args => exact h

/-- What an invariant says of an answer, the state before it being `s`. -/
structure Holds (I : Invariant) (s : State) (a : Answer) (s' : State) : Prop where
  holds : I.holds s'.store s'.cache
  extends_ : s.store.Extends s'.store
  value : ∀ v, a = .value v → I.value s'.store v

/-- What agreement says of the run without the wrapper, that of the other one
being cut short by an error or not. -/
theorem holds_of_agree {ahead : Option RuntimeError → Prop} {n : Nat} {x y : Nat → Eval Value}
    {s : State} (h : (I.comparison ahead).Agree (Pure.pure n) I.value x y s s) :
    (∃ f, ahead f ∧ (x n s).1 = .stopped f) ∨
      x n s = y n s ∧ I.Holds s (Interp.answerOf (y n s).1) (y n s).2 := by
  cases h with
  | value left right rel grows holds =>
    rw [eventually_pure] at left right
    obtain ⟨rfl, rel⟩ := rel
    refine .inr ⟨left.trans right.symm, ?_⟩
    rw [right]
    refine ⟨rel, grows.grow, ?_⟩
    rintro _ ⟨⟩
    exact holds
  | @stopped f _ _ left right rel grows fails =>
    rw [eventually_pure] at left right
    obtain ⟨rfl, rel⟩ := rel
    refine .inr ⟨left.trans right.symm, ?_⟩
    rw [right]
    refine ⟨rel, grows.grow, fun v hv => ?_⟩
    cases f <;> cases hv
  | ahead left ahead =>
    rw [eventually_pure] at left
    exact .inl ⟨_, ahead, by rw [left]⟩

/-- What no evaluation does unless it is as `P` says, an invariant may forbid: to
open some scopes, and to import some modules. -/
structure Spares (I : Invariant) (c : Settings) (P : Expr → ScopeId → State → Prop) : Prop where
  opens : ∀ {n e env s f st p k}, ¬ P e env s → Form.classify e = .ok f →
    f.Opens (Eval.evaluate c n) env s st p k → I.opens st p k
  imports : ∀ {e env s name}, ¬ P e env s → Form.classify e = .ok (.importDecl name) →
    I.imports name

theorem Kept.divert_agree (K : I.Kept c) (spares : I.Spares c P) (alarm : Eval Value)
    (ahead : Option RuntimeError → Prop)
    (alarms : ∀ {e env s}, P e env s → I.holds s.store s.cache → I.scope s.store env → I.code e →
      ∃ f, ahead f ∧ alarm s = (.stopped f, s)) (n : Nat) :
    (I.comparison ahead).EvalAgree (Pure.pure n) (Eval.through c (Eval.divert P alarm))
      (Eval.evaluate c) := by
  refine ((K.lawful ahead).through_agree (Eval.divert P alarm) trivial
    (fun _ _ => trivial) ?_ n).1
  rintro n e env s _ V ⟨rfl, h⟩ henv hcode agree
  by_cases hP : P e env s
  · obtain ⟨f, hf, halarm⟩ := alarms hP h henv hcode
    have diverted : ∀ x, Eval.divert P alarm e env x s = (.stopped f, s) := fun x => by
      rw [Eval.divert, if_pos hP, halarm]
    exact .ahead (eventually_pure.2 (diverted _)) hf
  · have allows : ∀ f, Form.classify e = .ok f →
        (I.comparison ahead).Allows (Pure.pure n) (Eval.evaluate c) env s f := fun f hf =>
      ⟨fun opens => spares.opens hP hf (eventually_pure.1 opens),
        fun himport => spares.imports hP (himport ▸ hf)⟩
    refine (K.lawful ahead).agree_after ((K.lawful ahead).grows_refl s) (agree allows)
      (eventually_pure.2 ?_) (eventually_pure.2 rfl)
    rw [Eval.divert, if_neg hP]

/-- What becomes of a request whose evaluations agree. -/
theorem answer_of_agree {i : Interp} {ev : Nat → Evaluator} {ahead : Option RuntimeError → Prop}
    (K : I.Kept i.settings) (h : I.holds i.state.store i.state.cache) {q : Request}
    (hq : I.Admits i.state.store q) {fuel : Nat}
    (agree : (I.comparison ahead).EvalAgree (Pure.pure fuel) ev (Eval.evaluate i.settings)) :
    (∃ f, ahead f ∧ (i.answerWith (ev fuel) q).1 = Interp.answerOf (.stopped f)) ∨
      i.answerWith (ev fuel) q = i.answer fuel q ∧
        I.Holds i.state (i.answer fuel q).1 (i.answer fuel q).2.state := by
  rcases (K.lawful ahead).request_agree agree ⟨rfl, h⟩ (hq.comparison ahead) with
    ⟨e, unread⟩ | ⟨x, y, computes, agree⟩
  · have answered : i.answer fuel q = _ := Interp.answerWith_error (unread fuel).2
    rw [answered, Interp.answerWith_error (unread fuel).1]
    exact .inr ⟨rfl, h, .refl _, fun v hv => nomatch hv⟩
  · have answered : i.answer fuel q = _ := Interp.answerWith_ok (computes fuel).2
    rw [answered, Interp.answerWith_ok (computes fuel).1]
    rcases holds_of_agree agree with ⟨f, hf, cut⟩ | ⟨same, holds⟩
    · exact .inl ⟨f, hf, by rw [cut]⟩
    · exact .inr ⟨by rw [same], holds⟩

/-- The choice: a request meets an evaluation that the invariant does not allow, or
the invariant holds after it. -/
theorem Kept.meets_or {i : Interp} (K : I.Kept i.settings) (spares : I.Spares i.settings P)
    (h : I.holds i.state.store i.state.cache) {q : Request} (hq : I.Admits i.state.store q)
    (fuel : Nat) :
    i.Meets fuel q P ∨ I.Holds i.state (i.answer fuel q).1 (i.answer fuel q).2.state := by
  by_cases meets : i.Meets fuel q P
  · exact .inl meets
  · obtain ⟨error, herror⟩ := not_forall.1 meets
    have agree := K.divert_agree spares (Eval.fail error) (· = some error)
      (fun _ _ _ _ => ⟨_, rfl, rfl⟩) fuel
    rcases answer_of_agree K h hq agree with ⟨_, rfl, cut⟩ | ⟨-, holds⟩
    · exact absurd cut herror
    · exact .inr holds

/-- Where an evaluation is never entered, an alarm in its place is never given,
and the invariant holds after every request. -/
theorem Kept.answer_divert {i : Interp} (K : I.Kept i.settings) (spares : I.Spares i.settings P)
    (never : ∀ {e env s}, I.holds s.store s.cache → I.scope s.store env → I.code e → ¬ P e env s)
    (h : I.holds i.state.store i.state.cache) {q : Request} (hq : I.Admits i.state.store q)
    (fuel : Nat) :
    (∀ alarm, i.answerWith (Eval.through i.settings (Eval.divert P alarm) fuel) q =
        i.answer fuel q) ∧
      I.Holds i.state (i.answer fuel q).1 (i.answer fuel q).2.state := by
  have unnoticed := fun alarm =>
    answer_of_agree K h hq (K.divert_agree spares alarm (fun _ => False)
      (fun hP hs henv hcode => absurd hP (never hs henv hcode)) fuel)
  exact ⟨fun alarm => ((unnoticed alarm).resolve_left fun ⟨_, h, _⟩ => h).1,
    ((unnoticed Eval.starve).resolve_left fun ⟨_, h, _⟩ => h).2⟩

/-- An invariant that forbids nothing holds after every request. -/
theorem Kept.answer_holds {i : Interp} (K : I.Kept i.settings) (opens : ∀ st p k, I.opens st p k)
    (imports : ∀ name, I.imports name) (h : I.holds i.state.store i.state.cache) {q : Request}
    (hq : I.Admits i.state.store q) (fuel : Nat) :
    I.Holds i.state (i.answer fuel q).1 (i.answer fuel q).2.state :=
  (K.answer_divert (P := fun _ _ _ => False) ⟨fun _ _ _ => opens .., fun _ _ => imports _⟩
    (fun _ _ _ => id) h hq fuel).2

end Invariant

end ScopeLisp
