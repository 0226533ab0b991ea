/-
ScopeLisp.Proofs.ImportOnce — a kept module is imported once and for all.

`Eval.once` takes a note when an import of some module first gives some scope;
from then on it does not evaluate imports of that module any more, but binds the
scope in the global one. `Interp.import_once_and_for_all` says that this is what
every session does anyway, when modules are kept: with the note and without it,
a session gives the same answers and leaves the same state.

The note is a line in front of the output, which evaluation does not read. What
carries the proof is that a noted module is kept, and that the state is in
order: a module that is being imported is not kept yet, so that its note cannot
be taken under way.
-/
import ScopeLisp.Proofs.Bookkeeping
import ScopeLisp.Proofs.Forms
import ScopeLisp.Proofs.Interposition

namespace ScopeLisp

/-! ## A note -/

/-- The line that stands before the output: a note, or nothing. -/
def noteLine (noted : Bool) : Array String := #[if noted then "noted" else ""]

namespace State

/-- Whether a note stands before the output. -/
def noted (s : State) : Bool := s.output[0]? == some "noted"

/-- Takes the note in the line that is there for it. -/
def note (s : State) : State := { s with output := s.output.setIfInBounds 0 "noted" }

@[simp] theorem noted_after (noted : Bool) (s : State) :
    (s.after (noteLine noted)).noted = noted := by
  have first : (s.after (noteLine noted)).output[0]? = (noteLine noted)[0]? :=
    Array.getElem?_append_left Nat.zero_lt_one
  rw [State.noted, first]
  cases noted <;> rfl

@[simp] theorem note_after (noted : Bool) (s : State) :
    (s.after (noteLine noted)).note = s.after (noteLine true) := by
  simp [note, after, noteLine]

end State

namespace Eval

/-- Notes when an import has given the scope `id`. -/
def noteImport (id : ScopeId) (x : Eval Value) : Eval Value := fun s =>
  match x s with
  | (.value (.scope i), s') => (.value (.scope i), if i = id then s'.note else s')
  | r => r

/-- Evaluates an expression; but after an import of the module has given the scope
`id`, only binds that scope instead of importing again, with an alarm if it is
not the one that is kept. -/
def once (name : String) (id : ScopeId) (alarm : Eval Value) (e : Expr) (_env : ScopeId)
    (x : Eval Value) : Eval Value := fun s =>
  if e.imported? = some name then
    if s.noted then
      if s.cache.get? name = some id then define State.globalId name (.scope id) s else alarm s
    else noteImport id x s
  else x s

/-! ## Imports of kept modules -/

section

variable {c : Settings} {name : String} {id : ScopeId} {s s' : State} {alarm : Eval Value}

theorem cached?_of_memoize (memo : c.memoize = true) (name : String) (s : State) :
    cached? c name s = s.cache.get? name := if_pos memo

/-- An import of a module that is kept binds it and does nothing else. -/
theorem step_of_kept {rounds : Nat} {ev : Evaluator} {e : Expr} (memo : c.memoize = true)
    (he : e.imported? = some name) (kept : s.cache.get? name = some id) (env : ScopeId) :
    step c rounds ev e env s = define State.globalId name (.scope id) s := by
  rw [step, Expr.imported?_eq_some.1 he]
  show importModule c ev name s = _
  rw [importModule_eq, cached?_of_memoize memo, kept]

theorem kept_of_keepModule {v : Value} (memo : c.memoize = true)
    (h : keepModule c name v s = (.value (.scope id), s')) : s'.cache.get? name = some id := by
  simp only [keepModule, update, memo] at h
  split at h
  · cases h
    rw [Bindings.get?_put, if_pos rfl]
  · next other =>
    cases h
    exact absurd rfl (other id rfl)

/-- The module that an import gives is kept. -/
theorem kept_of_importModule {ev : Evaluator} (memo : c.memoize = true)
    (h : importModule c ev name s = (.value (.scope id), s')) : s'.cache.get? name = some id := by
  rw [importModule_eq, cached?_of_memoize memo] at h
  cases hcached : s.cache.get? name with
  | some i =>
    rw [hcached] at h
    cases h
    exact hcached
  | none =>
    rw [hcached] at h
    cases hrefused : importRefused? c name s with
    | some e =>
      rw [hrefused] at h
      cases h
    | none =>
      rw [hrefused] at h
      obtain ⟨v, s₁, -, h⟩ := bind_eq_value h
      exact kept_of_keepModule memo h

/-! ## What a note changes -/

theorem noteImport_of_given {x : Eval Value} (h : x s = (.value (.scope id), s')) :
    noteImport id x s = (.value (.scope id), s'.note) := by
  rw [noteImport, h]
  simp only [if_true]

theorem noteImport_of_ne {x : Eval Value} {r : Outcome RuntimeError Value} (h : x s = (r, s'))
    (other : r ≠ .value (.scope id)) : noteImport id x s = (r, s') := by
  unfold noteImport
  rw [h]
  split
  · next i s₁ hr =>
    cases hr
    rw [if_neg fun hi => other (by rw [hi])]
  · rfl

theorem once_of_ne {e : Expr} (h : e.imported? ≠ some name) (env : ScopeId) (x : Eval Value) :
    once name id alarm e env x s = x s := by
  rw [once, if_neg h]

theorem once_of_not_noted {e : Expr} (he : e.imported? = some name) (h : s.noted = false)
    (env : ScopeId) (x : Eval Value) : once name id alarm e env x s = noteImport id x s := by
  rw [once, if_pos he, h, if_neg Bool.false_ne_true]

/-- A noted import that is kept does nothing but bind the module, either way. -/
theorem once_of_noted {e : Expr} {rounds : Nat} {ev : Evaluator} (memo : c.memoize = true)
    (he : e.imported? = some name) (kept : s.cache.get? name = some id) (h : s.noted = true)
    (env : ScopeId) :
    once name id alarm e env (step c rounds ev e env) s = step c rounds ev e env s := by
  rw [once, if_pos he, if_pos h, if_pos kept, step_of_kept memo he kept]

end

end Eval

/-! ## Runs with a note -/

/-- The comparison of a run that takes a note of an import with one that does not:
a module whose import is noted is kept. -/
def importNoted (c : Settings) (name : String) (id : ScopeId) : Comparison :=
  .annotated noteLine
    (fun noted s => s.Orderly c ∧ (noted = true → s.cache.get? name = some id))
    (fun _ => True) (fun _ => False)

theorem importNoted_laws (c : Settings) (name : String) (id : ScopeId) :
    Comparison.ControlLaws
      (fun noted s => s.Orderly c ∧ (noted = true → s.cache.get? name = some id))
      (fun _ => True) (fun _ => False) c c where
  memoize := rfl
  modules := rfl
  limit_le := Nat.le_refl _
  limit _ _ hle := .inl ⟨hle, trivial⟩
  error _ := trivial
  frame h depth importing cache :=
    ⟨h.1.frame depth importing cache, fun hnoted => cache ▸ h.2 hnoted⟩
  call h hlt := ⟨h.1.withDepth hlt, h.2⟩
  call_back h h' hdepth := ⟨h.1.popCall h'.1 hdepth, h'.2⟩
  load h hcached hfree := ⟨h.1.pushImport hcached hfree, h.2⟩
  load_back h h' importing := ⟨h.1.popImport h'.1 importing, h'.2⟩
  keep := by
    rintro s s' n i _ noted ⟨ordered, -⟩ memo hfree ⟨ordered', kept⟩ importing
    exact ⟨ordered.keep memo hfree ordered' importing i,
      fun hnoted => ordered'.get?_keep importing i (kept hnoted)⟩

/-- Noting what an import gives keeps its agreement with the import alone. -/
theorem noteImport_agree {c : Settings} (memo : c.memoize = true) {name : String} {id : ScopeId}
    {e : Expr} (he : e.imported? = some name) {n : Nat} {env : ScopeId}
    {V : Store → Value → Prop} {x w : Nat → Eval Value} {s t : State}
    (notes : w n s = Eval.noteImport id (x n) s)
    (agree : (importNoted c name id).Agree (Pure.pure n) V x
      (fun n => Eval.step c n (Eval.evaluate c n) e env) s t) :
    (importNoted c name id).Agree (Pure.pure n) V w
      (fun n => Eval.step c n (Eval.evaluate c n) e env) s t := by
  cases agree with
  | @value a s' t' left right rel grows holds =>
    rw [Filter.eventually_pure] at left right
    obtain ⟨noted, rfl, ordered, kept⟩ := rel
    by_cases given : a = .scope id
    · subst given
      have left' := notes.trans (Eval.noteImport_of_given left)
      rw [State.note_after] at left'
      have now : t'.cache.get? name = some id := by
        rw [Eval.step, Expr.imported?_eq_some.1 he] at right
        exact Eval.kept_of_importModule memo right
      exact .value (Filter.eventually_pure.2 left') (Filter.eventually_pure.2 right)
        ⟨true, rfl, ordered, fun _ => now⟩ ⟨grows.depth, grows.importing, trivial⟩ holds
    · have left' := notes.trans (Eval.noteImport_of_ne left fun h => given (by cases h; rfl))
      exact .value (Filter.eventually_pure.2 left') (Filter.eventually_pure.2 right)
        ⟨noted, rfl, ordered, kept⟩ grows holds
  | @stopped f s' t' left right rel grows fails =>
    rw [Filter.eventually_pure] at left
    have other : (Outcome.stopped f : Outcome RuntimeError Value) ≠ .value (.scope id) := by
      cases f <;> simp [Outcome.stopped]
    have left' := notes.trans (Eval.noteImport_of_ne left other)
    exact .stopped (Filter.eventually_pure.2 left') right rel grows fails
  | ahead _ never => exact never.elim

open Filter in
theorem once_agree {c : Settings} (memo : c.memoize = true) (name : String) (id : ScopeId)
    (alarm : Eval Value) (n : Nat) :
    (importNoted c name id).EvalAgree (Pure.pure n) (Eval.through c (Eval.once name id alarm))
      (Eval.evaluate c) := by
  have L : (importNoted c name id).Lawful c c := (importNoted_laws c name id).annotated_lawful _
  refine (L.through_agree (Eval.once name id alarm) trivial (fun _ _ => trivial) ?_ n).1
  rintro n e env _ t V ⟨noted, rfl, ordered, kept⟩ - - agree
  replace agree := agree fun _ _ => ⟨fun _ => trivial, fun _ => trivial⟩
  by_cases himport : e.imported? = some name
  swap
  · exact L.agree_after (L.grows_refl _) agree
      (.of_forall fun k => Eval.once_of_ne himport env _) (.of_forall fun _ => rfl)
  cases noted with
  | true =>
    exact L.agree_after (L.grows_refl _) agree
      (.of_forall fun k => Eval.once_of_noted (s := t.after (noteLine true)) memo himport
        (kept rfl) (t.noted_after true) env) (.of_forall fun _ => rfl)
  | false =>
    exact noteImport_agree memo himport
      (Eval.once_of_not_noted himport (t.noted_after false) env _) agree

/-! ## The scopes of kept modules -/

/-- A scope is that of a module of this name, in the global scope. -/
def Store.IsModule (st : Store) (name : String) (id : ScopeId) : Prop :=
  st.kind? id = some (.ofModule name) ∧ st.parent? id = some State.globalId

/-- Every module that is kept is one, of the name that it is kept under. -/
def modulesKept : Invariant where
  holds st cache :=
    State.globalId < st.size ∧ ∀ name id, cache.get? name = some id → st.IsModule name id
  loaded := Store.IsModule

theorem Store.IsModule.mono {st st' : Store} {name : String} {id : ScopeId}
    (h : st.IsModule name id) (extends_ : st.Extends st') : st'.IsModule name id := by
  have here := Store.lt_size_of_kind? h.1
  exact ⟨(extends_.kind id here).trans h.1, (extends_.parent id here).trans h.2⟩

theorem modulesKept_value (st : Store) (v : Value) : modulesKept.value st v := by
  cases v <;> simp [Invariant.value, modulesKept]

theorem modulesKept_kept (c : Settings) : modulesKept.Kept c := by
  have mono : ∀ {st st' cache}, st.Extends st' → modulesKept.holds st cache →
      modulesKept.holds st' cache := fun extends_ h =>
    ⟨h.1.trans_le extends_.size_le, fun name id hid => (h.2 name id hid).mono extends_⟩
  exact {
    moduleCode := fun _ => trivial
    parts := fun _ _ => Form.parts_of_forall (fun _ => trivial) _
    scope_mono := fun _ _ => trivial
    home_mono := fun _ _ => trivial
    object_mono := fun _ _ => trivial
    loaded_mono := fun extends_ h => h.mono extends_
    home_scope := fun _ => trivial
    object_home := fun _ => trivial
    global := fun _ => trivial
    found := fun _ _ _ => modulesKept_value _ _
    superclass := fun _ _ _ _ _ _ => trivial
    cached := fun h hid => ⟨trivial, h.2 _ _ hid⟩
    block_opens := trivial
    call_opens := trivial
    openScope := fun h _ _ => ⟨mono (.child ..) h, trivial, fun _ => trivial⟩
    loaded := by
      intro st cache name h
      refine ⟨?_, ?_⟩
      · rw [Store.kind?_child, if_pos rfl]
      · rw [Store.parent?_child, if_pos rfl, if_pos h.1]
    define := fun h _ _ => mono (.define ..) h
    assign := fun h _ _ _ => mono (.define ..) h
    bindModule := fun h _ _ => mono (.define ..) h
    keep := fun h _ loaded => ⟨h.1, Bindings.forall_get?_put loaded h.2⟩ }

/-! ## Sessions -/

namespace Interp

variable {c : Settings} {name : String} {id : ScopeId} {i : Interp} {alarm : Eval Value}

/-- A request that is answered with an eye on the note is answered as ever. -/
theorem answer_once (memo : i.settings.memoize = true) {noted : Bool}
    (ordered : i.state.Orderly i.settings)
    (kept : noted = true → i.state.cache.get? name = some id) (fuel : Nat) (q : Request) :
    ∃ noted', (i.after (noteLine noted)).answerWith
        (Eval.through i.settings (Eval.once name id alarm) fuel) q =
          ((i.answer fuel q).1, (i.answer fuel q).2.after (noteLine noted')) ∧
      (noted' = true → (i.answer fuel q).2.state.cache.get? name = some id) := by
  have L := (importNoted_laws i.settings name id).annotated_lawful noteLine
  obtain ⟨noted', same, -, kept'⟩ :=
    answer_annotated L (once_agree memo name id alarm fuel) ⟨ordered, kept⟩ q
  exact ⟨noted', same, kept'⟩

/-- So is a row of requests. -/
theorem answerAll_once (settings : i.settings = c) (memo : c.memoize = true) {noted : Bool}
    (ordered : i.state.Orderly c) (kept : noted = true → i.state.cache.get? name = some id)
    (qs : List (Nat × Request)) :
    let plain := i.answerAllWith (Eval.evaluate c) qs
    ∃ noted', (i.after (noteLine noted)).answerAllWith
        (Eval.through c (Eval.once name id alarm)) qs =
          (plain.1, plain.2.after (noteLine noted')) ∧
      (noted' = true → plain.2.state.cache.get? name = some id) := by
  induction qs generalizing i noted with
  | nil => exact ⟨noted, rfl, kept⟩
  | cons r qs ih =>
    obtain ⟨fuel, q⟩ := r
    subst settings
    obtain ⟨noted₁, first, kept₁⟩ := answer_once memo ordered kept fuel q
    obtain ⟨noted₂, rest, kept₂⟩ := ih (answer_settings i fuel q)
      (answer_orderly ordered fuel q).1 kept₁
    refine ⟨noted₂, ?_, kept₂⟩
    simp only [answerAllWith]
    rw [first]
    dsimp only
    rw [rest]
    rfl

/-- Every module that is kept after a row of requests is one. -/
theorem answerAll_modulesKept (settings : i.settings = c)
    (h : modulesKept.holds i.state.store i.state.cache) (qs : List (Nat × Request)) :
    let i' := (i.answerAllWith (Eval.evaluate c) qs).2
    modulesKept.holds i'.state.store i'.state.cache := by
  induction qs generalizing i with
  | nil => exact h
  | cons r qs ih =>
    obtain ⟨fuel, q⟩ := r
    subst settings
    have admits : modulesKept.Admits i.state.store q := by
      cases q <;> simp only [Invariant.Admits, modulesKept_value] <;> simp [modulesKept]
    exact ih (answer_settings i fuel q)
      ((modulesKept_kept i.settings).answer_holds (fun _ _ _ => trivial) (fun _ => trivial) h
        admits fuel).holds

/-- **A module is imported once and for all**, when modules are kept. In any session
with a new interpreter, it makes no difference if the imports of the module after
the first one that gives a scope do nothing but bind that scope, and if any of
them for which another one is kept sets off an alarm. What such an import does,
from wherever it is evaluated, is just that. And what is kept at the end of the
session is, for every name, a module of that name in the global scope. -/
theorem import_once_and_for_all (memo : c.memoize = true) (p : Prelude) (name : String)
    (id : ScopeId) (alarm : Eval Value) (qs : List (Nat × Request)) :
    let i := Interp.new c p
    let plain := i.answerAllWith (Eval.evaluate c) qs
    let noting := (i.after (noteLine false)).answerAllWith
      (Eval.through c (Eval.once name id alarm)) qs
    (noting.1 = plain.1 ∧ ∃ noted, noting.2 = plain.2.after (noteLine noted) ∧
        (noted = true → plain.2.state.cache.get? name = some id)) ∧
      (∀ e, e.imported? = some name → ∀ s : State, s.cache.get? name = some id → ∀ fuel env,
        Eval.evaluate c (fuel + 1) e env s =
          (.value (.scope id), s.define State.globalId name (.scope id))) ∧
      ∀ n m, plain.2.state.cache.get? n = some m →
        plain.2.state.store.kind? m = some (.ofModule n) ∧
          plain.2.state.store.parent? m = some State.globalId := by
  intro i plain noting
  have ordered : i.state.Orderly c := .fresh c p
  refine ⟨?_, fun e he s kept fuel env => Eval.step_of_kept memo he kept env, ?_⟩
  · have once : ∃ noted, noting = (plain.1, plain.2.after (noteLine noted)) ∧
        (noted = true → plain.2.state.cache.get? name = some id) :=
      answerAll_once (i := i) rfl memo ordered (fun taken => absurd taken Bool.false_ne_true) qs
    obtain ⟨noted, same, kept⟩ := once
    rw [same]
    exact ⟨rfl, noted, rfl, kept⟩
  · have fresh : modulesKept.holds i.state.store i.state.cache :=
      ⟨(State.size_fresh p).symm ▸ Nat.zero_lt_one, fun _ _ h => nomatch h⟩
    exact (answerAll_modulesKept (c := c) rfl fresh qs).2

/-- A module is imported, reassigned, and imported again. -/
def importTwice : List (Nat × Request) :=
  [(9, .run "(import Blank)"), (9, .run "(set Blank null) (import Blank)")]

/-- The first import opens scope 1, and takes the note. -/
example :
    let i := (Interp.new blankModule .standard).after (noteLine false)
    let once := Eval.through blankModule (Eval.once "Blank" 1 Eval.starve)
    (i.answerAllWith once importTwice).2.state.noted = true := by
  decide +kernel

theorem import_once_and_for_all_blank :
    let i := Interp.new blankModule .standard
    let plain := i.answerAllWith (Eval.evaluate blankModule) importTwice
    let noting := (i.after (noteLine false)).answerAllWith
      (Eval.through blankModule (Eval.once "Blank" 1 Eval.starve)) importTwice
    blankModule.memoize = true ∧
      (noting.1 = plain.1 ∧ ∃ noted, noting.2 = plain.2.after (noteLine noted) ∧
        (noted = true → plain.2.state.cache.get? "Blank" = some 1)) ∧
      (∀ e, e.imported? = some "Blank" → ∀ s : State, s.cache.get? "Blank" = some 1 →
        ∀ fuel env, Eval.evaluate blankModule (fuel + 1) e env s =
          (.value (.scope 1), s.define State.globalId "Blank" (.scope 1))) ∧
      ∀ n m, plain.2.state.cache.get? n = some m →
        plain.2.state.store.kind? m = some (.ofModule n) ∧
          plain.2.state.store.parent? m = some State.globalId :=
  ⟨rfl, import_once_and_for_all rfl .standard "Blank" 1 Eval.starve importTwice⟩

end Interp

end ScopeLisp
