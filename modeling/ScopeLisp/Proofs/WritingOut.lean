/-
ScopeLisp.Proofs.WritingOut — what sugar is written out as is a form.

The operands of sugar have been checked when it is written out, and the checks are
strong enough for what it becomes: every expression that sugar stands for is a form
again, and no sugar (`Sugar.standsFor_expand`). The one exception is a `switch` with one
clause, which is the body of the clause, whatever that is; but then the expression gets
smaller, so that writing out comes to an end (`Expr.written_out`).
-/
import Mathlib.Data.List.Chain
import ScopeLisp.Proofs.Classification
import ScopeLisp.Proofs.Termination

namespace ScopeLisp

/-! ## What sugar stands for -/

/-- Nested `if`s with the given clauses in order, the body of the last clause
innermost. -/
inductive Expr.Branches : List (Expr × Expr) → Expr → Prop
  | last {condition body : Expr} : Branches [(condition, body)] body
  | next {condition body alternate e : Expr} {clauses : List (Expr × Expr)}
    (branch : Form.classify e = .ok (.branch condition body alternate))
    (rest : Branches clauses alternate) : Branches ((condition, body) :: clauses) e

/-- An assignment to a target of what an operator gives for it and an operand. -/
def Expr.Updates (target : Expr) (operator : String) (operand e : Expr) : Prop :=
  ∃ t value, target = t.toExpr ∧ Form.classify e = .ok (.assign t value) ∧
    Form.classify value = .ok (.apply (.symbol operator) [target, operand])

/-- What an expression has to be to stand for sugar. -/
def Sugar.StandsFor (e : Expr) : Sugar → Prop
  | define name params body => ∃ names function, params = paramsExpr names ∧
      Form.classify e = .ok (.declare name function) ∧
      Form.classify function = .ok (.lambda names body)
  | switch clauses => Expr.Branches clauses e
  | iterate init condition update body => ∃ loop round,
      Form.classify e = .ok (.block [init, loop]) ∧
      Form.classify loop = .ok (.loop condition round) ∧
      Form.classify round = .ok (.block [body, update])
  | increment target => Expr.Updates target "+" (.number 1.0) e
  | decrement target => Expr.Updates target "-" (.number 1.0) e
  | addAssign target delta => Expr.Updates target "+" delta e
  | subAssign target delta => Expr.Updates target "-" delta e

namespace Sugar

theorem branches_expandSwitch {c : Expr × Expr} :
    ∀ {clauses : List (Expr × Expr)}, Expr.Branches (c :: clauses) (expandSwitch (c :: clauses))
  | [] => .last
  | _ :: _ => .next (Form.classify_form (k := .branch).2 rfl) branches_expandSwitch

theorem updates_expandUpdate {target : Expr} {operator : String} (operand : Expr)
    (h : OperandSort.target.Admits target) (free : Keyword.ofName? operator = none) :
    Expr.Updates target operator operand (expandUpdate target operator operand) := by
  obtain ⟨t, rfl⟩ := OperandSort.admits_target_iff.1 h
  refine ⟨t, .form operator [t.toExpr, operand], rfl, Form.classify_form (k := .assign).2 ?_, ?_⟩
  · rw [Keyword.form?, Target.ofExpr?_toExpr]
    rfl
  · simp only [Expr.form, Form.classify, free]

/-- What sugar is written out as stands for it, since its operands have been checked. -/
theorem standsFor_expand {e : Expr} {s : Sugar} (h : Form.classify e = .ok (.sugar s)) :
    s.StandsFor s.expand := by
  obtain rfl := Form.toExpr_of_classify h
  cases s with
  | define name params body =>
    obtain ⟨-, ⟨names, rfl⟩, -⟩ := Form.fits_of_classify (k := .define) h
    refine ⟨names, _, rfl, Form.classify_form (k := .declare).2 rfl,
      Form.classify_form (k := .lambda).2 ?_⟩
    rw [Keyword.form?, paramNames?_paramsExpr]
    rfl
  | switch clauses =>
    have fits := Form.fits_of_classify (k := .switch) h
    cases clauses with
    | nil => exact fits.elim
    | cons => exact branches_expandSwitch
  | iterate init condition update body =>
    exact ⟨_, _, Form.classify_form (k := .block).2 rfl, Form.classify_form (k := .loop).2 rfl,
      Form.classify_form (k := .block).2 rfl⟩
  | increment target =>
    have fits := Form.fits_of_classify (k := .increment) h
    exact updates_expandUpdate _ fits.1 rfl
  | decrement target =>
    have fits := Form.fits_of_classify (k := .decrement) h
    exact updates_expandUpdate _ fits.1 rfl
  | addAssign target delta =>
    have fits := Form.fits_of_classify (k := .addAssign) h
    exact updates_expandUpdate delta fits.1 rfl
  | subAssign target delta =>
    have fits := Form.fits_of_classify (k := .subAssign) h
    exact updates_expandUpdate delta fits.1 rfl

/-- What stands for sugar is a form and no sugar, but for the body of a lone clause. -/
theorem StandsFor.core {e : Expr} {s : Sugar} (h : s.StandsFor e) :
    (∃ condition, s = .switch [(condition, e)]) ∨
      ∃ f, Form.classify e = .ok f ∧ ∀ s', f ≠ .sugar s' := by
  cases s with
  | define =>
    obtain ⟨_, _, -, form, -⟩ := h
    exact .inr ⟨_, form, nofun⟩
  | switch =>
    cases h with
    | last => exact .inl ⟨_, rfl⟩
    | next branch rest => exact .inr ⟨_, branch, nofun⟩
  | iterate =>
    obtain ⟨_, _, form, -⟩ := h
    exact .inr ⟨_, form, nofun⟩
  | increment | decrement | addAssign | subAssign =>
    obtain ⟨_, _, -, form, -⟩ := h
    exact .inr ⟨_, form, nofun⟩

end Sugar

/-! ## Writing out again and again -/

namespace Expr

/-- One expression is sugar, and the other what it is written out as. -/
def WritesOut (e e' : Expr) : Prop := ∃ s, Form.classify e = .ok (.sugar s) ∧ e' = s.expand

theorem WritesOut.weight_lt {e e' : Expr} (h : e.WritesOut e') : e'.weight < e.weight := by
  obtain ⟨s, hs, rfl⟩ := h
  obtain rfl := Form.toExpr_of_classify hs
  exact s.weight_expand_lt

/-- Writing out takes fewer steps than the expression weighs. -/
theorem length_lt_of_isChain :
    ∀ {path : List Expr} {e : Expr}, (e :: path).IsChain WritesOut → path.length < e.weight
  | [], e, _ => e.one_le_weight
  | e' :: path, e, h => by
    obtain ⟨step, rest⟩ := List.isChain_cons_cons.1 h
    have shorter := length_lt_of_isChain rest
    have lighter := step.weight_lt
    simp only [List.length_cons]
    omega

/-- Writing out ends, with something that is no sugar. -/
theorem exists_writesOut_end (e : Expr) :
    ∃ e', Relation.ReflTransGen WritesOut e e' ∧ ∀ s, Form.classify e' ≠ .ok (.sugar s) := by
  induction h : e.weight using Nat.strongRecOn generalizing e with
  | ind w ih =>
    subst h
    by_cases sugar : ∃ s, Form.classify e = .ok (.sugar s)
    · obtain ⟨s, hs⟩ := sugar
      have step : e.WritesOut s.expand := ⟨s, hs, rfl⟩
      obtain ⟨e', steps, last⟩ := ih _ step.weight_lt _ rfl
      exact ⟨e', .head step steps, last⟩
    · exact ⟨e, .refl, fun s hs => sugar ⟨s, hs⟩⟩

/-- **Sugar is written out as forms.** What an expression that is sugar is written out as
stands for it: it has the parts of the sugar in the places of the form that is meant. So it
is a form again and no sugar, unless it is the body of a lone clause. From any expression,
the rows of such steps are bounded in length, and one of them leads to something that is no
sugar. -/
theorem written_out (e : Expr) :
    (∀ s, Form.classify e = .ok (.sugar s) →
      s.StandsFor s.expand ∧
        (∀ condition body, s = .switch [(condition, body)] → s.expand = body) ∧
        ((∀ condition body, s ≠ .switch [(condition, body)]) →
          ∃ f, Form.classify s.expand = .ok f ∧ ∀ s', f ≠ .sugar s')) ∧
      (∃ n, ∀ path, (e :: path).IsChain WritesOut → path.length ≤ n) ∧
      ∃ e', Relation.ReflTransGen WritesOut e e' ∧ ∀ s, Form.classify e' ≠ .ok (.sugar s) := by
  refine ⟨fun s hs => ?_, ⟨e.weight, fun path h => (length_lt_of_isChain h).le⟩,
    exists_writesOut_end e⟩
  have stands := Sugar.standsFor_expand hs
  refine ⟨stands, ?_, fun several => ?_⟩
  · rintro condition body rfl
    rfl
  · rcases stands.core with ⟨condition, lone⟩ | core
    · exact absurd lone (several _ _)
    · exact core

end Expr

end ScopeLisp
