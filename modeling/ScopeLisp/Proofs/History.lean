/-
ScopeLisp.Proofs.History — history is monotone.

A state continues an earlier one (`State.Continues`) if all that was there is
there still: the scopes, in their places and with their names in order; the lines
that were printed; and the modules that were kept. Every answer leads to a state
that continues the one before it (`Interp.history_monotone`), and so does every
row of answers (`Interp.Reachable.continues`).

Scopes and records only grow by the acts of the store. The output is not read by
evaluation, so that a run from a state with output is the run without it, with
the lines put in front. A kept module could be replaced only by an import of its
name that is running, and what is kept is not imported.
-/
import ScopeLisp.Proofs.Bookkeeping
import ScopeLisp.Proofs.ObjectModel
import ScopeLisp.Proofs.Reachability

namespace ScopeLisp

/-! ## Continuing a state -/

/-- Nothing of a state is gone in a later one. -/
structure State.Continues (s s' : State) : Prop where
  scopes : s.store.Extends s'.store
  output : s.output.toList <+: s'.output.toList
  cache : ∀ name id, s.cache.get? name = some id → s'.cache.get? name = some id

namespace State.Continues

theorem refl (s : State) : s.Continues s := ⟨.refl _, List.prefix_rfl, fun _ _ h => h⟩

theorem trans {s₁ s₂ s₃ : State} (h : s₁.Continues s₂) (h' : s₂.Continues s₃) :
    s₁.Continues s₃ where
  scopes := h.scopes.trans h'.scopes
  output := h.output.trans h'.output
  cache name id kept := h'.cache name id (h.cache name id kept)

end State.Continues

/-! ## What is kept stays kept -/

/-- The states in order in which the modules of a cache are kept. -/
def State.Keeps (c : Settings) (cache : Bindings ScopeId) (s : State) : Prop :=
  s.Orderly c ∧ ∀ name id, cache.get? name = some id → s.cache.get? name = some id

theorem keeps_laws (c : Settings) (cache : Bindings ScopeId) :
    Comparison.ControlLaws (fun _ : Unit => State.Keeps c cache) (fun _ => True) (fun _ => False)
      c c where
  memoize := rfl
  modules := rfl
  limit_le := Nat.le_refl _
  limit _ _ hle := .inl ⟨hle, trivial⟩
  error _ := trivial
  frame h depth importing cache := ⟨h.1.frame depth importing cache, cache ▸ h.2⟩
  call h hlt := ⟨h.1.withDepth hlt, h.2⟩
  call_back h h' hdepth := ⟨h.1.popCall h'.1 hdepth, h'.2⟩
  load h hcached hfree := ⟨h.1.pushImport hcached hfree, h.2⟩
  load_back h h' importing := ⟨h.1.popImport h'.1 importing, h'.2⟩
  keep h memo hfree h' importing :=
    ⟨h.1.keep memo hfree h'.1 importing _,
      fun n m kept => h'.1.get?_keep importing _ (h'.2 n m kept)⟩

/-! ## Answers -/

namespace Interp

variable {i : Interp}

/-- A run that may touch every scope extends the store. -/
theorem answer_extends (i : Interp) (fuel : Nat) (q : Request) :
    i.state.store.Extends (i.answer fuel q).2.state.store := by
  have everywhere : ∀ {st : Store} {id : ScopeId},
      st.Granted i.state.store.size (fun _ => True) id := .inl trivial
  have values : ∀ v, (confined i.state.store fun _ => True).value i.state.store v := fun _ =>
    Store.confined_value.2 fun _ _ => everywhere
  have admits : (confined i.state.store fun _ => True).Admits i.state.store q := by
    cases q with
    | run source => exact fun _ _ => ⟨everywhere, trivial⟩
    | program e => exact ⟨everywhere, trivial⟩
    | eval e env => exact ⟨.inl everywhere, trivial⟩
    | call callee args => exact ⟨values callee, fun v _ => values v⟩
  have start : i.state.store.Confined (fun _ => True) i.state.store i.state.cache :=
    ⟨Nat.le_refl _, trivial, fun _ _ _ _ => everywhere, fun _ _ _ => everywhere,
      fun _ _ outside => absurd trivial outside⟩
  exact ((confined_kept i.settings i.state.store fun _ => True).answer_holds
    (fun _ _ _ => trivial) (fun _ => trivial) start admits fuel).extends_

/-- An answer comes after the lines that were printed before, and the modules that
were kept are kept still. -/
theorem answer_keeps (ordered : i.state.Orderly i.settings) (fuel : Nat) (q : Request) :
    i.state.output.toList <+: (i.answer fuel q).2.state.output.toList ∧
      ∀ name id, i.state.cache.get? name = some id →
        (i.answer fuel q).2.state.cache.get? name = some id := by
  -- The interpreter as it would be if it had printed nothing.
  let silent : Interp := { i with state := { i.state with output := #[] } }
  have same : silent.after i.state.output = i := by
    simp [silent, after, State.after]
  have L := (keeps_laws i.settings i.state.cache).annotated_lawful fun _ => i.state.output
  have free := Comparison.annotated_free (fun _ : Unit => i.state.output)
    (fun _ => State.Keeps i.settings i.state.cache) (fun _ => True) (fun _ => False)
  have start : State.Keeps i.settings i.state.cache silent.state :=
    ⟨ordered.frame rfl rfl rfl, fun _ _ kept => kept⟩
  obtain ⟨-, answered, -, kept⟩ :=
    @answer_annotated Unit _ _ _ silent _ fuel () L (L.evaluate (.inl ⟨trivial, rfl⟩) free fuel)
      start q
  rw [same] at answered
  have answered : i.answer fuel q = _ := answered
  rw [answered]
  exact ⟨by simp [after, State.after], kept⟩

theorem answer_continues (ordered : i.state.Orderly i.settings) (fuel : Nat) (q : Request) :
    i.state.Continues (i.answer fuel q).2.state :=
  have kept := answer_keeps ordered fuel q
  ⟨answer_extends i fuel q, kept.1, kept.2⟩

/-- All that was there in some reachable interpreter is there after any further row of
requests. -/
theorem Reachable.continues {j : Interp} (h : i.Reachable)
    (later : Relation.ReflTransGen Step i j) :
    i.state.Continues j.state := by
  suffices all : j.Reachable ∧ i.state.Continues j.state from all.2
  induction later with
  | refl => exact ⟨h, .refl _⟩
  | tail _ step ih =>
    obtain ⟨fuel, q, known, ends, rfl⟩ := step
    exact ⟨.answer ih.1 known ends, ih.2.trans (answer_continues ih.1.orderly.1 fuel q)⟩

/-- **History is monotone.** Whatever a reachable interpreter is asked and however that
ends, every scope that was there is there still, of the same kind and inside the
same scope, and its names are those that it had, in their order, with new ones
after them; the lines that were printed are the first lines of the output; and
every module that was kept is kept, with the very scope that it had. -/
theorem history_monotone (h : i.Reachable) (fuel : Nat) (q : Request) :
    let s := i.state
    let s' := (i.answer fuel q).2.state
    (∀ id sc, s.store.scope? id = some sc → ∃ sc', s'.store.scope? id = some sc' ∧
        sc'.kind = sc.kind ∧ sc'.parent = sc.parent ∧ sc.record.names <+: sc'.record.names) ∧
      s.output.toList <+: s'.output.toList ∧
      ∀ name id, s.cache.get? name = some id → s'.cache.get? name = some id := by
  intro s s'
  obtain ⟨scopes, output, cache⟩ := answer_continues h.orderly.1 fuel q
  exact ⟨fun id sc hsc => scopes.scope? hsc, output, cache⟩

/-- An interpreter that has printed a line and imported a module. -/
def greeted : Interp :=
  ((Interp.new blankModule .standard).answer 9 (.run "(print \"hello\") (import Blank)")).2

/-- Scope 1 is that of the module. -/
example : greeted.state.output.toList = ["hello"] ∧ greeted.state.cache.get? "Blank" = some 1 := by
  decide +kernel

theorem history_monotone_greeted :
    let q := Request.run "(set Blank null) (import Blank) (fail)"
    let s := greeted.state
    let s' := (greeted.answer 9 q).2.state
    greeted.Reachable ∧
      (∀ id sc, s.store.scope? id = some sc → ∃ sc', s'.store.scope? id = some sc' ∧
        sc'.kind = sc.kind ∧ sc'.parent = sc.parent ∧ sc.record.names <+: sc'.record.names) ∧
      s.output.toList <+: s'.output.toList ∧
      ∀ name id, s.cache.get? name = some id → s'.cache.get? name = some id := by
  intro q s s'
  have h : greeted.Reachable := by
    refine .answer (.new _ Prelude.standard_known) trivial ?_
    cbv
    simp
  exact ⟨h, history_monotone h 9 q⟩

end Interp

end ScopeLisp
