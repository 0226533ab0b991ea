/-
ScopeLisp.Proofs.DirectReading — what `switch` and `for` mean when they are read
directly.

The evaluator writes them out: a `switch` becomes nested `if`s, a `for` a loop in a
block with a block in it. Read directly, a `switch` goes through its clauses and a `for`
through its rounds (`Eval.firstTrue`, `Eval.iterate`). Both ways come to the same
(`Eval.direct_readings`), in whatever state and whatever the operands do.

The two ways take different amounts of fuel. So they are compared by what they end with
when there is enough: a computation is below another one if the other one ends as it
does wherever it ends (`Eval.Below`), and more fuel leads upwards.
-/
import ScopeLisp.Proofs.Forms
import ScopeLisp.Proofs.Requests

namespace ScopeLisp

namespace Eval

variable {α β : Type}

/-! ## Direct readings -/

/-- The clauses in order: the first one whose condition is true has its body evaluated.
The condition of the last clause is not asked. -/
def firstTrue (eval : Evaluator) (env : ScopeId) : Expr × Expr → List (Expr × Expr) → Eval Value
  | (_, e), [] => eval e env
  | (condition, e), next :: clauses => do
    match ← eval condition env with
    | .bool true => eval e env
    | _ => firstTrue eval env next clauses

/-- Rounds as long as a condition is true, at most as many as are given. The value is
that of the last round, or `last` if there is none. -/
def whileTrue (condition round : Eval Value) : Nat → Value → Eval Value
  | rounds, last => do
    match ← condition with
    | .bool true =>
      match rounds with
      | 0 => starve
      | rounds + 1 => do
        let v ← round
        whileTrue condition round rounds v
    | _ => pure last

/-- A block for the whole, in which `init` is evaluated once and the condition before each
round, and a block in it for each round, in which `e` and then `update` are evaluated. -/
def iterate (eval : Evaluator) (env : ScopeId) (init condition update e : Expr) (rounds : Nat) :
    Eval Value := do
  let outer ← openScope env .block
  let _ ← eval init outer
  let round := do
    let inner ← openScope outer .block
    let _ ← eval e inner
    eval update inner
  whileTrue (eval condition outer) round rounds .undefined

/-- From a state, two computations end alike: what one of them ends with, given enough
fuel, and the state that it leaves are what the other one ends with and leaves. If one of
them does not end, neither does the other. -/
def EndAlike (x y : Nat → Eval α) (s : State) : Prop :=
  ∀ r s', r ≠ .outOfFuel → (Ends x s r s' ↔ Ends y s r s')

/-! ## Computations below others -/

/-- Wherever the first computation ends, the second one ends so, too. -/
def Below (x y : Eval α) : Prop := ∀ s, (x s).1 ≠ .outOfFuel → y s = x s

theorem Below.refl (x : Eval α) : Below x x := fun _ _ => rfl

theorem Below.trans {x y z : Eval α} (h : Below x y) (h' : Below y z) : Below x z := by
  intro s ends
  have same := h s ends
  rw [h' s (by rwa [same]), same]

theorem below_starve (x : Eval α) : Below starve x := fun _ ends => absurd rfl ends

theorem Below.bind {x y : Eval α} {f g : α → Eval β} (h : Below x y) (h' : ∀ a, Below (f a) (g a)) :
    Below (x >>= f) (y >>= g) := by
  intro s ends
  simp only [Bind.bind, andThen] at ends ⊢
  rcases hx : x s with ⟨a | e | _, s₁⟩ <;> rw [hx] at ends
  · rw [h s (by simp [hx]), hx]
    exact h' a s₁ ends
  · rw [h s (by simp [hx]), hx]
  · exact absurd rfl ends

theorem Below.ite {x x' y y' : Eval α} (b : Bool) (h : Below x x') (h' : Below y y') :
    Below (if b then x else y) (if b then x' else y') := by
  cases b
  · exact h'
  · exact h

/-- Evaluation with less fuel is below evaluation with more. -/
theorem evaluate_below (c : Settings) {m n : Nat} (h : m ≤ n) (e : Expr) (env : ScopeId) :
    Below (evaluate c m e env) (evaluate c n e env) := by
  intro s ends
  obtain ⟨k, rfl⟩ := Nat.exists_eq_add_of_le h
  exact evaluate_mono k ends

theorem Ends.of_below {x y : Nat → Eval α} {s s' : State} {r : Outcome RuntimeError α} (k : Nat)
    (h : ∀ n, Below (x n) (y (n + k))) (value : r ≠ .outOfFuel) (ends : Ends x s r s') :
    Ends y s r s' := by
  have shifted : Ends (fun n => y (n + k)) s r s' := by
    filter_upwards [ends] with n hn
    rw [h n s (by rwa [hn]), hn]
  rw [Ends, ← Filter.map_add_atTop_eq_nat k]
  exact shifted

/-- Families of which each stays below the other one, if that has some more fuel. -/
theorem EndAlike.of_below {x y : Nat → Eval α} (k l : Nat) (h : ∀ n, Below (x n) (y (n + k)))
    (h' : ∀ n, Below (y n) (x (n + l))) (s : State) : EndAlike x y s := fun _ _ value =>
  ⟨Ends.of_below k h value, Ends.of_below l h' value⟩

/-! ## One step of evaluation -/

theorem evaluate_of_form? {c : Settings} {k : Keyword} {operands : List Expr} {f : Form}
    (h : k.form? operands = some f) (n : Nat) (env : ScopeId) :
    evaluate c (n + 1) (.form k.name operands) env = form c n (evaluate c n) env f := by
  funext s
  rw [evaluate, step, Form.classify_form.2 h]

/-- A choice on a value is a choice on whether the value is true. -/
theorem match_true_eq (v : Value) (x y : Eval α) :
    (match v with | .bool true => x | _ => y) = if v.isTrue then x else y := by
  rcases v with _ | _ | (_ | _) | _ | _ | _ | _ | _ <;> rfl

/-- Sugar takes one step to be written out. -/
theorem below_expand {c : Settings} {k : Keyword} {operands : List Expr} {s : Sugar}
    (h : k.form? operands = some (.sugar s)) (n : Nat) (env : ScopeId) :
    Below (evaluate c n (.form k.name operands) env) (evaluate c n s.expand env) := by
  cases n with
  | zero => exact below_starve _
  | succ n =>
    rw [evaluate_of_form? h]
    exact evaluate_below c n.le_succ s.expand env

/-- A row of two expressions. -/
theorem sequence_pair (eval : Evaluator) (env : ScopeId) (last : Value) (d e : Expr) :
    sequence eval env last [d, e] = (do let _ ← eval d env; eval e env) := by
  funext s
  simp only [sequence, Bind.bind, andThen]
  rcases eval d env s with ⟨a | _ | _, s₁⟩
  · dsimp only
    rcases eval e env s₁ with ⟨_ | _ | _, s₂⟩ <;> rfl
  · rfl
  · rfl

theorem evaluate_block_pair (c : Settings) (n : Nat) (d e : Expr) (env : ScopeId) :
    evaluate c (n + 1) (.block [d, e]) env = (do
      let id ← openScope env .block
      let _ ← evaluate c n d id
      evaluate c n e id) := by
  have opened : evaluate c (n + 1) (.block [d, e]) env =
      form c n (evaluate c n) env (.block [d, e]) :=
    evaluate_of_form? (k := .block) rfl n env
  rw [opened]
  simp only [form, sequence_pair]

/-! ## Clauses -/

theorem firstTrue_cons (eval : Evaluator) (env : ScopeId) (condition e : Expr)
    (next : Expr × Expr) (clauses : List (Expr × Expr)) :
    firstTrue eval env (condition, e) (next :: clauses) = (do
      let v ← eval condition env
      if v.isTrue then eval e env else firstTrue eval env next clauses) := by
  simp only [firstTrue, match_true_eq]

theorem evaluate_expandSwitch_cons (c : Settings) (n : Nat) (env : ScopeId) (condition e : Expr)
    (next : Expr × Expr) (clauses : List (Expr × Expr)) :
    evaluate c (n + 1) (Sugar.expandSwitch ((condition, e) :: next :: clauses)) env = (do
      let v ← evaluate c n condition env
      if v.isTrue then evaluate c n e env
      else evaluate c n (Sugar.expandSwitch (next :: clauses)) env) :=
  evaluate_of_form? (k := .branch)
    (f := .branch condition e (Sugar.expandSwitch (next :: clauses))) rfl n env

theorem expandSwitch_below_firstTrue (c : Settings) (env : ScopeId) :
    ∀ (clauses : List (Expr × Expr)) (first : Expr × Expr) (n : Nat),
      Below (evaluate c n (Sugar.expandSwitch (first :: clauses)) env)
        (firstTrue (evaluate c n) env first clauses)
  | [], _, _ => .refl _
  | _ :: _, _, 0 => below_starve _
  | next :: clauses, (condition, e), n + 1 => by
    have more : ∀ d, Below (evaluate c n d env) (evaluate c (n + 1) d env) := fun d =>
      evaluate_below c n.le_succ d env
    rw [evaluate_expandSwitch_cons, firstTrue_cons]
    exact (more condition).bind fun v => .ite v.isTrue (more e)
      ((more _).trans (expandSwitch_below_firstTrue c env clauses next (n + 1)))

theorem firstTrue_below_expandSwitch (c : Settings) (env : ScopeId) (n : Nat) :
    ∀ (clauses : List (Expr × Expr)) (first : Expr × Expr),
      Below (firstTrue (evaluate c n) env first clauses)
        (evaluate c (n + clauses.length) (Sugar.expandSwitch (first :: clauses)) env)
  | [], _ => .refl _
  | next :: clauses, (condition, e) => by
    have more : ∀ d, Below (evaluate c n d env) (evaluate c (n + clauses.length) d env) :=
      fun d => evaluate_below c (Nat.le_add_right ..) d env
    rw [List.length_cons, ← Nat.add_assoc, evaluate_expandSwitch_cons, firstTrue_cons]
    exact (more condition).bind fun v => .ite v.isTrue (more e)
      (firstTrue_below_expandSwitch c env n clauses next)

theorem switch_endAlike (c : Settings) (env : ScopeId) (s : State) (first : Expr × Expr)
    (clauses : List (Expr × Expr)) :
    EndAlike
      (fun n => evaluate c n (.form Keyword.switch.name ((first :: clauses).map clauseExpr)) env)
      (fun n => firstTrue (evaluate c n) env first clauses) s := by
  have read : Keyword.switch.form? ((first :: clauses).map clauseExpr) =
      some (.sugar (.switch (first :: clauses))) := by
    have one : ∀ c, clause? (clauseExpr c) = some c := fun _ => rfl
    exact congrArg (Option.map (Form.sugar <| .switch ·)) (mapM_map_of_read one (first :: clauses))
  refine .of_below 0 (clauses.length + 1) (fun n => ?_) (fun n => ?_) s
  · exact (below_expand read n env).trans (expandSwitch_below_firstTrue c env clauses first n)
  · rw [← Nat.add_assoc, evaluate_of_form? read]
    exact firstTrue_below_expandSwitch c env n clauses first

/-! ## Rounds -/

/-- The loop of the evaluator as rounds. -/
theorem loop_eq_whileTrue (eval : Evaluator) (env : ScopeId) (condition e : Expr) :
    ∀ (rounds : Nat) (last : Value), loop eval env condition e rounds last =
      whileTrue (eval condition env) (eval e env) rounds last := by
  intro rounds
  induction rounds with
  | zero =>
    intro last
    simp only [loop, whileTrue, match_true_eq]
  | succ rounds ih =>
    intro last
    simp only [loop, whileTrue, match_true_eq, ih]

theorem whileTrue_eq (condition round : Eval Value) (rounds : Nat) (last : Value) :
    whileTrue condition round rounds last = (do
      let v ← condition
      if v.isTrue then
        match rounds with
        | 0 => starve
        | rounds + 1 => do
          let w ← round
          whileTrue condition round rounds w
      else pure last) := by
  cases rounds <;> simp only [whileTrue, match_true_eq]

theorem whileTrue_below {condition condition' round round' : Eval Value}
    (h : Below condition condition') (h' : Below round round') :
    ∀ {rounds rounds' : Nat}, rounds ≤ rounds' → ∀ last,
      Below (whileTrue condition round rounds last) (whileTrue condition' round' rounds' last) := by
  intro rounds
  induction rounds with
  | zero =>
    intro rounds' _ last
    rw [whileTrue_eq, whileTrue_eq]
    exact h.bind fun v => .ite v.isTrue (below_starve _) (.refl _)
  | succ rounds ih =>
    intro rounds' hle last
    obtain ⟨rounds', rfl⟩ := Nat.exists_eq_add_of_lt hle
    rw [whileTrue_eq, whileTrue_eq]
    exact h.bind fun v => .ite v.isTrue (h'.bind fun w => ih (by omega) w) (.refl _)

/-- A block with rounds in it, with its own fuel for each of its parts. -/
def rounds (c : Settings) (env : ScopeId) (init condition body : Expr)
    (forInit forCondition forBody count : Nat) : Eval Value := do
  let outer ← openScope env .block
  let _ ← evaluate c forInit init outer
  whileTrue (evaluate c forCondition condition outer) (evaluate c forBody body outer) count
    .undefined

theorem rounds_below (c : Settings) (env : ScopeId) (init condition body : Expr)
    {i i' j j' k k' n n' : Nat} (hi : i ≤ i') (hj : j ≤ j') (hk : k ≤ k') (hn : n ≤ n') :
    Below (rounds c env init condition body i j k n)
      (rounds c env init condition body i' j' k' n') :=
  (Below.refl _).bind fun outer => (evaluate_below c hi init outer).bind fun _ =>
    whileTrue_below (evaluate_below c hj condition outer) (evaluate_below c hk body outer) hn _

/-- A round evaluates a block of its two expressions. -/
theorem iterate_eq_rounds (c : Settings) (n : Nat) (env : ScopeId)
    (init condition update e : Expr) (count : Nat) :
    iterate (evaluate c n) env init condition update e count =
      rounds c env init condition (.block [e, update]) n n (n + 1) count := by
  simp only [iterate, rounds, evaluate_block_pair]

theorem evaluate_expandIterate (c : Settings) (n : Nat) (env : ScopeId)
    (init condition update e : Expr) :
    evaluate c (n + 3) (Sugar.expandIterate init condition update e) env =
      rounds c env init condition (.block [e, update]) (n + 2) (n + 1) (n + 1) (n + 1) := by
  have loop : ∀ outer, evaluate c (n + 2) (.form "while" [condition, .block [e, update]]) outer =
      whileTrue (evaluate c (n + 1) condition outer)
        (evaluate c (n + 1) (.block [e, update]) outer) (n + 1) .undefined := by
    intro outer
    rw [← loop_eq_whileTrue]
    exact evaluate_of_form? (k := .loop) (f := .loop condition (.block [e, update])) rfl _ outer
  rw [Sugar.expandIterate, evaluate_block_pair]
  simp only [loop, rounds]

theorem iterate_endAlike (c : Settings) (env : ScopeId) (s : State)
    (init condition update e : Expr) :
    EndAlike
      (fun n => evaluate c n (.form Keyword.iterate.name [init, condition, update, e]) env)
      (fun n => iterate (evaluate c n) env init condition update e n) s := by
  have read : Keyword.iterate.form? [init, condition, update, e] =
      some (.sugar (.iterate init condition update e)) := rfl
  refine .of_below 3 4 (fun n => ?_) (fun n => ?_) s
  · have expanded := (below_expand read n env).trans (evaluate_below c (n.le_add_right 3) _ env)
    rw [Sugar.expand, evaluate_expandIterate] at expanded
    rw [iterate_eq_rounds]
    exact expanded.trans (rounds_below c env init condition _ (by omega) (by omega) (by omega)
      (by omega))
  · show Below _ (evaluate c (n + 3 + 1) _ env)
    rw [evaluate_of_form? read, form, Sugar.expand, evaluate_expandIterate, iterate_eq_rounds]
    exact rounds_below c env init condition _ (by omega) (by omega) (by omega) (by omega)

/-- **`switch` and `for`, read directly.** From every state and in every scope, a `switch`
ends as the row of its clauses does, and a `for` as the loop of its rounds: with the same
value or error and in the same state, if they end at all. -/
theorem direct_readings (c : Settings) (env : ScopeId) (s : State) :
    (∀ first clauses,
      EndAlike
        (fun n => evaluate c n (.form Keyword.switch.name ((first :: clauses).map clauseExpr)) env)
        (fun n => firstTrue (evaluate c n) env first clauses) s) ∧
      ∀ init condition update e,
        EndAlike
          (fun n => evaluate c n (.form Keyword.iterate.name [init, condition, update, e]) env)
          (fun n => iterate (evaluate c n) env init condition update e n) s :=
  ⟨switch_endAlike c env s, iterate_endAlike c env s⟩

end Eval

end ScopeLisp
