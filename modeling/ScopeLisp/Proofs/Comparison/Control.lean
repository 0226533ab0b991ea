/-
ScopeLisp.Proofs.Comparison.Control — comparisons that look only at the running
calls and imports and at the modules that are kept.

`ControlLaws` asks only how calls, imports and the limit bear on such a
comparison; everything that happens to scopes is of no concern to it
(`ControlLaws.lawful`). Nor is what has been printed: evaluation does not read
it, so that a run can carry a note in front of its output
(`ControlLaws.annotated_lawful`).

The first of them is the comparison of an evaluation with itself under more
fuel: a finished evaluation stays as it is (`Eval.evaluate_mono`).
-/
import ScopeLisp.Proofs.Comparison.Evaluation

namespace ScopeLisp

/-- The same state, with other lines before those that were printed. -/
def State.after (lines : Array String) (s : State) : State :=
  { s with output := lines ++ s.output }

namespace Comparison

variable {β : Type} {c d : Settings}

/-- From the same state, which is as `I` says. -/
def control (I : State → Prop) (fails ahead : Option RuntimeError → Prop) : Comparison where
  rel s t := s = t ∧ I s
  fails := fails
  ahead := ahead

/-- From the same state but for a note before the output of the left run; the state
is as `I` says for the note. -/
def annotated (text : β → Array String) (I : β → State → Prop)
    (fails ahead : Option RuntimeError → Prop) : Comparison where
  rel s t := ∃ note, s = t.after (text note) ∧ I note t
  fails := fails
  ahead := ahead

theorem control_eq_annotated (I : State → Prop) (fails ahead : Option RuntimeError → Prop) :
    control I fails ahead = annotated (fun _ : Unit => #[]) (fun _ => I) fails ahead := by
  have same : ∀ s t : State, s = t ∧ I s ↔ ∃ _ : Unit, s = t.after #[] ∧ I t := by
    intro s t
    simp only [State.after, Array.empty_append, exists_const]
    exact and_congr_right fun h => by rw [h]
  simp only [control, annotated, same]

/-- What a comparison of control has to keep. -/
structure ControlLaws (I : β → State → Prop) (fails ahead : Option RuntimeError → Prop)
    (c d : Settings) : Prop where
  memoize : c.memoize = d.memoize
  modules : c.modules = d.modules
  limit_le : c.maxCallDepth ≤ d.maxCallDepth
  limit : ∀ {s k note}, I note s → k = s.depth ∨ k = s.importing.length → c.maxCallDepth ≤ k →
    d.maxCallDepth ≤ k ∧ fails (some (.stackExhausted k)) ∨ ahead (some (.stackExhausted k))
  error : ∀ {e}, (∀ k, e ≠ .stackExhausted k) → fails (some e)
  frame : ∀ {s s' note}, I note s → s'.depth = s.depth → s'.importing = s.importing →
    s'.cache = s.cache → I note s'
  call : ∀ {s note}, I note s → s.depth < c.maxCallDepth → I note s.pushCall
  call_back : ∀ {s s' note note'}, I note s → I note' s' → s'.depth = s.pushCall.depth →
    I note' s'.popCall
  load : ∀ {s name note}, I note s → Eval.cached? c name s = none →
    Eval.importRefused? c name s = none → I note (s.pushImport name)
  load_back : ∀ {s s' name note note'}, I note s → I note' s' →
    s'.importing = (s.pushImport name).importing → I note' s'.popImport
  keep : ∀ {s s' name id note note'}, I note s → c.memoize = true →
    Eval.importRefused? c name s = none → I note' s' →
    s'.importing = (s.pushImport name).importing → I note' (s'.popImport.keep name id)

section

variable {fails ahead : Option RuntimeError → Prop}

theorem ControlLaws.annotated_lawful {I : β → State → Prop} (h : ControlLaws I fails ahead c d)
    (text : β → Array String) : (annotated text I fails ahead).Lawful c d where
  memoize := h.memoize
  moduleForm _ := by simp only [Eval.moduleForm, h.modules]
  moduleCode _ _ := trivial
  limit_le := h.limit_le
  limit := by
    rintro _ t k ⟨note, rfl, hI⟩ hk hle
    exact h.limit hI hk hle
  error := h.error
  grow_refl _ := trivial
  grow_trans _ _ := trivial
  scope_mono _ _ := trivial
  home_mono _ _ := trivial
  home_scope _ := trivial
  loaded_mono _ _ := trivial
  value_mono _ _ := trivial
  enter_mono _ _ := trivial
  parts := by
    intro e f _ _
    exact f.parts_of_forall fun _ => trivial
  block _ _ _ := trivial
  constructorName := trivial
  plain _ := trivial
  closure := ⟨fun _ => ⟨trivial, trivial, fun _ _ => trivial⟩, fun _ => trivial⟩
  object _ := trivial
  alike := by
    rintro _ t ⟨note, rfl, -⟩
    exact ⟨rfl, fun _ => rfl, fun _ => rfl, rfl, rfl, rfl, rfl⟩
  global _ := trivial
  lookup := by
    rintro _ t id name ⟨note, rfl, -⟩ _ _
    rfl
  found _ _ _ _ := trivial
  resolve := by
    rintro _ t id name ⟨note, rfl, -⟩ _ _
    rfl
  superclass _ _ _ _ _ _ := trivial
  cached _ _ := ⟨trivial, trivial⟩
  block_opens := trivial
  call_opens := trivial
  openScope := by
    rintro _ t p k ⟨note, rfl, hI⟩ _ _
    exact ⟨⟨note, rfl, h.frame hI rfl rfl rfl⟩, trivial, trivial, fun _ => trivial⟩
  loaded _ := trivial
  define := by
    rintro _ t id name v ⟨note, rfl, hI⟩ _ _ _
    exact ⟨⟨note, rfl, h.frame hI rfl rfl rfl⟩, trivial⟩
  assign := by
    rintro _ t id name o v ⟨note, rfl, hI⟩ _ _ _ _
    exact ⟨⟨note, rfl, h.frame hI rfl rfl rfl⟩, trivial⟩
  bindModule := by
    rintro _ t name id ⟨note, rfl, hI⟩ _ _ _
    exact ⟨⟨note, rfl, h.frame hI rfl rfl rfl⟩, trivial⟩
  serial := by
    rintro _ t ⟨note, rfl, hI⟩
    exact ⟨⟨note, rfl, h.frame hI rfl rfl rfl⟩, trivial⟩
  print := by
    rintro _ t lines ⟨note, rfl, hI⟩
    refine ⟨⟨note, ?_, h.frame hI rfl rfl rfl⟩, trivial⟩
    simp only [State.print, State.after, Array.append_assoc]
  call := by
    rintro _ t ⟨note, rfl, hI⟩ hlt
    exact ⟨note, rfl, h.call hI hlt⟩
  call_enter _ _ _ := trivial
  call_back := by
    rintro _ t _ t' ⟨note, rfl, hI⟩ ⟨note', rfl, hI'⟩ grows
    exact ⟨⟨note', rfl, h.call_back hI hI' grows.depth⟩, trivial⟩
  load := by
    rintro _ t name ⟨note, rfl, hI⟩ _ hcached hfree
    exact ⟨note, rfl, h.load hI hcached hfree⟩
  load_enter _ _ _ := trivial
  load_back := by
    rintro _ t _ t' name ⟨note, rfl, hI⟩ ⟨note', rfl, hI'⟩ grows
    exact ⟨⟨note', rfl, h.load_back hI hI' grows.importing⟩, trivial⟩
  keep := by
    rintro _ t _ t' name id ⟨note, rfl, hI⟩ _ hmemo _ hfree ⟨note', rfl, hI'⟩ grows _ _
    exact ⟨⟨note', rfl, h.keep hI hmemo hfree hI' grows.importing⟩, trivial⟩

theorem ControlLaws.lawful {I : State → Prop}
    (h : ControlLaws (fun _ : Unit => I) fails ahead c d) : (control I fails ahead).Lawful c d := by
  rw [control_eq_annotated]
  exact h.annotated_lawful _

end

/-- Such comparisons let every form be evaluated. -/
theorem annotated_free (text : β → Array String) (I : β → State → Prop)
    (fails ahead : Option RuntimeError → Prop) : (annotated text I fails ahead).Free :=
  ⟨fun _ _ => trivial, fun _ _ _ => trivial, fun _ => trivial⟩

theorem control_free (I : State → Prop) (fails ahead : Option RuntimeError → Prop) :
    (control I fails ahead).Free := by
  rw [control_eq_annotated]
  exact annotated_free ..

/-- Two families that agree from a state with and without a note, for one amount of
fuel: the same end in the same state, with and without a note, or the left one
has ended early. -/
theorem Agree.annotated_cases {text : β → Array String} {I : β → State → Prop}
    {fails ahead : Option RuntimeError → Prop} {α : Type} {V : Store → α → Prop}
    {x y : Nat → Eval α} {s t : State} {n : Nat}
    (h : (annotated text I fails ahead).Agree (Pure.pure n) V x y s t) :
    (∃ note, x n s = ((y n t).1, (y n t).2.after (text note)) ∧ I note (y n t).2) ∨
      ∃ f, ahead f ∧ (x n s).1 = .stopped f := by
  cases h with
  | value left right rel _ _ =>
    rw [Filter.eventually_pure] at left right
    obtain ⟨note, rfl, hI⟩ := rel
    exact .inl ⟨note, by rw [left, right], right ▸ hI⟩
  | stopped left right rel _ _ =>
    rw [Filter.eventually_pure] at left right
    obtain ⟨note, rfl, hI⟩ := rel
    exact .inl ⟨note, by rw [left, right], right ▸ hI⟩
  | ahead left ahead =>
    rw [Filter.eventually_pure] at left
    exact .inr ⟨_, ahead, by rw [left]⟩

/-- Two families that agree from one state, for one amount of fuel: the same
end in the same state, or the left one has ended early. -/
theorem Agree.control_cases {I : State → Prop} {fails ahead : Option RuntimeError → Prop}
    {α : Type} {V : Store → α → Prop} {x y : Nat → Eval α} {s : State} {n : Nat}
    (h : (control I fails ahead).Agree (Pure.pure n) V x y s s) :
    x n s = y n s ∨ ∃ f, ahead f ∧ (x n s).1 = .stopped f := by
  cases h with
  | value left right rel _ _ =>
    rw [Filter.eventually_pure] at left right
    exact .inl (by rw [left, right, rel.1])
  | stopped left right rel _ _ =>
    rw [Filter.eventually_pure] at left right
    exact .inl (by rw [left, right, rel.1])
  | ahead left ahead =>
    rw [Filter.eventually_pure] at left
    exact .inr ⟨_, ahead, by rw [left]⟩

/-! ## More fuel -/

/-- The comparison of an evaluation with one that has more fuel: only the first
may starve before the other ends. -/
def moreFuel : Comparison := control (fun _ => True) (fun _ => True) (· = none)

theorem moreFuel_laws (c : Settings) :
    ControlLaws (fun (_ : Unit) _ => True) (fun _ => True) (· = none) c c where
  memoize := rfl
  modules := rfl
  limit_le := Nat.le_refl _
  limit _ _ hk := .inl ⟨hk, trivial⟩
  error _ := trivial
  frame _ _ _ _ := trivial
  call _ _ := trivial
  call_back _ _ _ := trivial
  load _ _ _ := trivial
  load_back _ _ _ := trivial
  keep _ _ _ _ _ := trivial

theorem moreFuel_agree (c : Settings) (n k : Nat) :
    moreFuel.EvalAgree (Pure.pure n) (Eval.evaluate c) (fun n => Eval.evaluate c (n + k)) :=
  (moreFuel_laws c).lawful.evaluate (.inr rfl) (control_free ..) n

end Comparison

/-- An evaluation that ends does not change when it is given more fuel. -/
theorem Eval.evaluate_mono {c : Settings} {n : Nat} (k : Nat) {e : Expr} {env : ScopeId}
    {s : State} (h : (evaluate c n e env s).1 ≠ .outOfFuel) :
    evaluate c (n + k) e env s = evaluate c n e env s := by
  have agree := Comparison.moreFuel_agree c n k e env s s ⟨rfl, trivial⟩ (.inl trivial) trivial
    trivial
  rcases agree.control_cases with same | ⟨f, rfl, starved⟩
  · exact same.symm
  · exact absurd starved h

end ScopeLisp
