/-
ScopeLisp.Proofs.Concatenation — running texts one after the other.

Two texts with a line end between them hold the forms of the first and then those
of the second (`Holds.append`): no token and no list reaches across the join. To run
a row of forms is to run its first part and then, if that has a value, its second
part (`Interp.evalProgram_append`), since forms at top level are evaluated in the
global scope itself and leave nothing but the state. So a text runs as its parts do
(`Interp.run_in_sequence`).
-/
import Mathlib
import ScopeLisp.Proofs.Requests
import ScopeLisp.Proofs.Syntax.Reading

namespace ScopeLisp

/-! ## Texts -/

/-- Nothing reaches across a line end between two texts that are complete. -/
theorem Holds.append {cs ds : List Char} {es fs : List Expr} (h : Holds cs es)
    (h' : Holds ds fs) : Holds (cs ++ '\n' :: ds) (es ++ fs) := by
  obtain ⟨ts, scans, takes⟩ := h
  obtain ⟨us, scans', takes'⟩ := h'
  have joined : Scans [] (cs ++ '\n' :: ds) (ts ++ us) :=
    (scans.append (.newline ds)).trans (.layout rfl scans')
  have onTop := (Reading.takes_atop (r := .start)).2 ⟨_, takes', Reading.atop_mk_nil es.reverse _⟩
  refine ⟨_, joined, Reading.takes_append.2 ⟨_, takes, ?_⟩⟩
  rw [List.reverse_append]
  exact onTop

/-! ## Rows of forms -/

namespace Eval

variable {eval : Evaluator} {env : ScopeId}

theorem body_block (es : List Expr) :
    body eval env (.block es) = sequence eval env .undefined es := rfl

/-- A row is evaluated as its parts are, one after the other. -/
theorem sequence_append (last : Value) (es fs : List Expr) :
    sequence eval env last (es ++ fs) =
      sequence eval env last es >>= fun v => sequence eval env v fs := by
  induction es generalizing last with
  | nil => rfl
  | cons e es ih =>
    funext s
    simp only [List.cons_append, sequence, ih, Bind.bind, andThen]
    rcases eval e env s with ⟨v | _ | _, s'⟩ <;> rfl

/-- A row that is not empty does not hang on the value before it. -/
theorem sequence_of_ne_nil {fs : List Expr} (h : fs ≠ []) (last last' : Value) :
    sequence eval env last fs = sequence eval env last' fs := by
  cases fs with
  | nil => exact absurd rfl h
  | cons f fs => rfl

end Eval

namespace Interp

/-- One computation and then another, on the state of an interpreter. -/
theorem perform_bind (i : Interp) (x : Eval Value) (f : Value → Eval Value) :
    i.perform (x >>= f) =
      match i.perform x with
      | (.value v, i') => i'.perform (f v)
      | failed => failed := by
  simp only [perform, Bind.bind, Eval.andThen]
  rcases x i.state with ⟨v | _ | _, s⟩ <;> rfl

theorem perform_settings (i : Interp) (x : Eval Value) : (i.perform x).2.settings = i.settings := by
  rw [perform_eq]

/-- A program is run as its parts are, one after the other. -/
theorem evalProgram_append (i : Interp) (fuel : Nat) (es fs : List Expr) :
    i.evalProgram fuel (.block (es ++ fs)) =
      match i.evalProgram fuel (.block es) with
      | (.value v, i') => if fs = [] then (.value v, i') else i'.evalProgram fuel (.block fs)
      | failed => failed := by
  simp only [evalProgram, Eval.body_block, Eval.sequence_append, perform_bind]
  have settings := perform_settings i
    (Eval.sequence (Eval.evaluate i.settings fuel) State.globalId .undefined es)
  split
  next v i' performed =>
    simp only [performed] at settings ⊢
    rw [settings]
    split
    next empty =>
      subst empty
      rfl
    next more => rw [Eval.sequence_of_ne_nil more]
  next => rfl

/-- A program without forms does nothing. -/
theorem evalProgram_nil (i : Interp) (fuel : Nat) :
    i.evalProgram fuel (.block []) = (.value .undefined, i) := rfl

/-- Where the whole has a value, the first part has one, and so has the second after
it. -/
theorem evalProgram_append_eq_value {i i'' : Interp} {fuel : Nat} {es fs : List Expr} {v : Value}
    (h : i.evalProgram fuel (.block (es ++ fs)) = (.value v, i'')) :
    ∃ v₁ i' v₂, i.evalProgram fuel (.block es) = (.value v₁, i') ∧
      i'.evalProgram fuel (.block fs) = (.value v₂, i'') := by
  rw [evalProgram_append] at h
  split at h
  next v₁ i' first =>
    split at h
    next empty =>
      obtain ⟨rfl, rfl⟩ : v₁ = v ∧ i' = i'' := by simpa using h
      exact ⟨v₁, i', .undefined, first, by rw [empty, evalProgram_nil]⟩
    next => exact ⟨v₁, i', v, first, h⟩
  next failed => exact absurd h (failed v i'')

theorem run_of_holds {source : String} {es : List Expr} (h : Holds source.toList es) (i : Interp)
    (fuel : Nat) : i.run fuel source = i.evalProgram fuel (.block es) := by
  rw [run, Expr.ofProgram_eq_ok.2 ⟨es, h, rfl⟩]

/-- A text that is run to a value holds forms that are. -/
theorem run_eq_value {i i' : Interp} {fuel : Nat} {source : String} {v : Value}
    (h : i.run fuel source = (.value v, i')) :
    ∃ es, Holds source.toList es ∧ i.evalProgram fuel (.block es) = (.value v, i') := by
  cases read : Expr.ofProgram source with
  | error e =>
    rw [run, read] at h
    cases h
  | ok program =>
    obtain ⟨es, holds, rfl⟩ := Expr.ofProgram_eq_ok.1 read
    exact ⟨es, holds, by rwa [← run_of_holds holds]⟩

/-- With any amount of fuel, a text runs as its parts do. -/
theorem run_append {s₁ s₂ : String} {es fs : List Expr} (h₁ : Holds s₁.toList es)
    (h₂ : Holds s₂.toList fs) (i : Interp) (fuel : Nat) :
    i.run fuel (s₁ ++ "\n" ++ s₂) =
      match i.run fuel s₁ with
      | (.value v, i') => if fs = [] then (.value v, i') else i'.run fuel s₂
      | failed => failed := by
  have joined : Holds (s₁ ++ "\n" ++ s₂).toList (es ++ fs) := by
    simpa using h₁.append h₂
  simp only [run_of_holds joined, run_of_holds h₁, run_of_holds h₂, evalProgram_append]

/-- **Running texts in sequence is running their concatenation.** Two texts that
can be read as programs make one text, whose program has the forms of the first and
then those of the second. If the first fails, the whole fails with the same error
and leaves the same interpreter. If it has a value, the whole ends as the second
does after the first; when there is no form in the second, with the value of the
first. -/
theorem run_in_sequence (i : Interp) {s₁ s₂ : String} {p₁ p₂ : Expr}
    (h₁ : Expr.ofProgram s₁ = .ok p₁) (h₂ : Expr.ofProgram s₂ = .ok p₂) :
    let joined := s₁ ++ "\n" ++ s₂
    ∃ es₁ es₂, p₁ = .block es₁ ∧ p₂ = .block es₂ ∧
      Expr.ofProgram joined = .ok (.block (es₁ ++ es₂)) ∧
      (∀ e i', i.Answers (.run s₁) (.error e) i' → i.Answers (.run joined) (.error e) i') ∧
      ∀ v i', i.Answers (.run s₁) (.value v) i' →
        if es₂ = [] then i.Answers (.run joined) (.value v) i'
        else ∀ a i'', i.Answers (.run joined) a i'' ↔ i'.Answers (.run s₂) a i'' := by
  obtain ⟨es₁, holds₁, rfl⟩ := Expr.ofProgram_eq_ok.1 h₁
  obtain ⟨es₂, holds₂, rfl⟩ := Expr.ofProgram_eq_ok.1 h₂
  intro joined
  have whole : ∀ fuel, i.answer fuel (.run joined) =
      match i.answer fuel (.run s₁) with
      | (.value v, i') => if es₂ = [] then (.value v, i') else i'.answer fuel (.run s₂)
      | failed => failed := fun fuel => by
    simp only [answer_run]
    exact run_append holds₁ holds₂ i fuel
  refine ⟨es₁, es₂, rfl, rfl, ?_, ?_, ?_⟩
  · exact Expr.ofProgram_eq_ok.2 ⟨_, by simpa [joined] using holds₁.append holds₂, rfl⟩
  · rintro e i' ⟨ends, fuel, h⟩
    exact ⟨ends, fuel, by rw [whole, h]⟩
  · intro v i' first
    split
    next empty =>
      obtain ⟨ends, fuel, h⟩ := first
      exact ⟨ends, fuel, by simp only [whole, h, empty, if_true]⟩
    next more =>
      intro a i''
      constructor
      · rintro ⟨ends, fuel, h⟩
        rw [whole] at h
        split at h
        next v' j given =>
          have ended : i.Answers (.run s₁) (.value v') j := ⟨by simp, fuel, given⟩
          obtain ⟨-, rfl⟩ := first.unique ended
          exact ⟨ends, fuel, by rwa [if_neg more] at h⟩
        next failed =>
          obtain ⟨rfl, rfl⟩ := first.unique ⟨ends, fuel, h⟩
          exact absurd h (failed v i')
      · intro second
        obtain ⟨n, hn⟩ := first.exists_forall
        obtain ⟨m, hm⟩ := second.exists_forall
        refine ⟨second.1, n + m, ?_⟩
        rw [whole, hn m]
        simpa only [if_neg more, Nat.add_comm] using hm n

/-- The comment at the end of the first text does not reach into the second. -/
theorem run_in_sequence_comment :
    let i := Interp.new blankModule .standard
    let joined := "(var x \"one\") ; x" ++ "\n" ++ "x"
    Expr.ofProgram "(var x \"one\") ; x" = .ok (.block [.form "var" [.symbol "x", .str "one"]]) ∧
      Expr.ofProgram "x" = .ok (.block [.symbol "x"]) ∧
      ∃ es₁ es₂, Expr.block [.form "var" [.symbol "x", .str "one"]] = .block es₁ ∧
        Expr.block [.symbol "x"] = .block es₂ ∧
        Expr.ofProgram joined = .ok (.block (es₁ ++ es₂)) ∧
        (∀ e i', i.Answers (.run "(var x \"one\") ; x") (.error e) i' →
          i.Answers (.run joined) (.error e) i') ∧
        ∀ v i', i.Answers (.run "(var x \"one\") ; x") (.value v) i' →
          if es₂ = [] then i.Answers (.run joined) (.value v) i'
          else ∀ a i'', i.Answers (.run joined) a i'' ↔ i'.Answers (.run "x") a i'' := by
  intro i joined
  have h₁ : Expr.ofProgram "(var x \"one\") ; x" =
      .ok (.block [.form "var" [.symbol "x", .str "one"]]) := by cbv
  have h₂ : Expr.ofProgram "x" = .ok (.block [.symbol "x"]) := by cbv
  exact ⟨h₁, h₂, run_in_sequence i h₁ h₂⟩

end Interp

end ScopeLisp
