/-
ScopeLisp.Proofs.ObjectModel — what classes, instances and modules are inside of.

All scopes hang from the global one, an instance from its class, and a class from
its superclass or from the scope of its declaration (`Store.ObjectModel`). Every
evaluation keeps this, and the evaluations inside it start and end in such stores
too (`Eval.Regular`). So the value of a `super` form is never null, and no scope
is shown as an instance of no class.

Where a class, an instance or a module is inside of is decided by the form that
opens it (`Interp.Opened`). `Interp.object_model` finds that form in the history
of a reachable interpreter, for every scope that it has.
-/
import ScopeLisp.Proofs.Interposition
import Mathlib

namespace ScopeLisp

/-! ## The object model -/

namespace Store

/-- The scopes of a store are a tree with the global scope on top, in which every
instance is right under its class. -/
structure ObjectModel (st : Store) : Prop where
  /-- There is one global scope. -/
  global : ∀ id, st.kind? id = some .global ↔ id = State.globalId
  /-- The chain of every scope ends in it. -/
  chain_end : ∀ id < st.size, (st.chain id).getLast? = some State.globalId
  /-- All other scopes, classes and modules among them, are inside a scope. -/
  enclosed : ∀ id k, st.kind? id = some k → k ≠ .global → ∃ p, st.parent? id = some p
  /-- An instance is inside a class, whose name is that of its class. -/
  instances : ∀ id p, st.kind? id = some .ofInstance → st.parent? id = some p →
    ∃ name, st.kind? p = some (.ofClass name) ∧ st.className? id = some name
  /-- No scope is shown as an instance of no class. -/
  shown : ∀ id, st.scopeText id ≠ "<instance>"

/-- What opening a scope inside another one preserves. -/
structure Rooted (st : Store) : Prop where
  root : st.kind? State.globalId = some .global
  global : ∀ id, st.kind? id = some .global → id = State.globalId
  enclosed : ∀ id < st.size, id ≠ State.globalId → ∃ p, st.parent? id = some p
  instances : ∀ id p, st.kind? id = some .ofInstance → st.parent? id = some p →
    st.isClass p = true

namespace Rooted

variable {st : Store}

theorem global_lt (h : st.Rooted) : State.globalId < st.size := lt_size_of_kind? h.root

theorem chain_end (h : st.Rooted) {id : ScopeId} (hid : id < st.size) :
    (st.chain id).getLast? = some State.globalId := by
  induction id using Nat.strongRecOn with
  | ind id ih =>
    rw [chain_eq]
    by_cases hroot : id = State.globalId
    · subst hroot
      have top : st.parent? State.globalId = none := by
        cases hp : st.parent? State.globalId with
        | none => rfl
        | some p => exact absurd (lt_of_parent? hp) (Nat.not_lt_zero p)
      simp [top]
    · obtain ⟨p, hp⟩ := h.enclosed id hid hroot
      have older := lt_of_parent? hp
      simp [hp, List.getLast?_cons, ih p older (older.trans hid)]

theorem className?_instance (h : st.Rooted) {id p : ScopeId}
    (hid : st.kind? id = some .ofInstance) (hp : st.parent? id = some p) :
    ∃ name, st.kind? p = some (.ofClass name) ∧ st.className? id = some name := by
  obtain ⟨name, hname⟩ := isClass_iff.1 (h.instances id p hid hp)
  refine ⟨name, hname, ?_⟩
  rw [className?_eq, hid]
  simp only [hp, Option.bind_some]
  rw [className?_eq, hname]

theorem parent_of_kind? (h : st.Rooted) {id : ScopeId} {k : ScopeKind}
    (hid : st.kind? id = some k) (hk : k ≠ .global) : ∃ p, st.parent? id = some p := by
  refine h.enclosed id (lt_size_of_kind? hid) ?_
  rintro rfl
  rw [h.root] at hid
  cases hid
  exact hk rfl

/-- The texts of classes and modules begin otherwise, that of an instance has the
name of its class in it. -/
theorem scopeText_ne (h : st.Rooted) (id : ScopeId) : st.scopeText id ≠ "<instance>" := by
  unfold scopeText
  split
  · intro same
    simpa [String.toList_append] using congrArg String.toList same
  · next hid =>
    obtain ⟨p, hp⟩ := h.parent_of_kind? hid (by simp)
    obtain ⟨name, -, hname⟩ := h.className?_instance hid hp
    rw [hname]
    intro same
    have lengths := congrArg (fun s => s.toList.length) same
    simp [String.toList_append] at lengths
  · intro same
    simpa [String.toList_append] using congrArg String.toList same
  · decide
  · decide
  · decide
  · decide

theorem objectModel (h : st.Rooted) : st.ObjectModel where
  global id := ⟨h.global id, fun hid => hid ▸ h.root⟩
  chain_end _ := h.chain_end
  enclosed _ _ := h.parent_of_kind?
  instances _ _ := h.className?_instance
  shown := h.scopeText_ne

theorem child (h : st.Rooted) {p : ScopeId} {k : ScopeKind} (hp : p < st.size)
    (hk : k ≠ .global) (hclass : k = .ofInstance → st.isClass p = true) :
    (st.child p k).Rooted := by
  have extended := Extends.child st p k
  refine ⟨?_, ?_, ?_, ?_⟩
  · rw [extended.kind _ h.global_lt]
    exact h.root
  · intro id hid
    rw [kind?_child] at hid
    split at hid
    · cases hid
      exact absurd rfl hk
    · exact h.global id hid
  · intro id hid hne
    rw [parent?_child]
    split
    · exact ⟨p, rfl⟩
    · next old =>
      rw [size_child] at hid
      exact h.enclosed id (Nat.lt_of_le_of_ne (Nat.le_of_lt_succ hid) old) hne
  · intro id q hid hq
    rw [kind?_child] at hid
    rw [parent?_child] at hq
    split at hid
    · next new =>
      rw [if_pos new, if_pos hp] at hq
      cases hid
      cases hq
      rw [extended.isClass hp]
      exact hclass rfl
    · next old =>
      rw [if_neg old] at hq
      rw [extended.isClass ((lt_of_parent? hq).trans (lt_size_of_kind? hid))]
      exact h.instances id q hid hq

theorem define (h : st.Rooted) (id : ScopeId) (name : String) (v : Value) :
    (st.define id name v).Rooted where
  root := (kind?_define ..).trans h.root
  global other hother := h.global other (kind?_define .. ▸ hother)
  enclosed other hother hne := by
    rw [parent?_define]
    exact h.enclosed other (size_define .. ▸ hother) hne
  instances other p hother hp := by
    rw [isClass, kind?_define]
    exact h.instances other p (kind?_define .. ▸ hother) (parent?_define .. ▸ hp)

theorem fresh (p : Prelude) : (State.fresh p).store.Rooted where
  root := State.kind?_fresh.2 ⟨rfl, rfl⟩
  global _ hid := (State.kind?_fresh.1 hid).1
  enclosed _ hid hne := absurd (Nat.lt_one_iff.1 (State.size_fresh p ▸ hid)) hne
  instances _ _ hid _ := nomatch (State.kind?_fresh.1 hid).2

end Rooted

end Store

/-! ## Scopes that are there -/

/-- All scopes that values and kept modules lead to are there. -/
def Store.Closed (st : Store) (cache : Bindings ScopeId) : Prop :=
  st.AllHeld cache (Value.Known st)

theorem Value.Known.mono {st st' : Store} {v : Value} (h : v.Known st)
    (extends_ : st.Extends st') : v.Known st' := by
  cases v with
  | scope id => exact Nat.lt_of_lt_of_le h extends_.size_le
  | closure f => exact Nat.lt_of_lt_of_le h extends_.size_le
  | _ => trivial

namespace Store.Closed

variable {st : Store} {cache : Bindings ScopeId}

theorem child (h : st.Closed cache) (p : ScopeId) (k : ScopeKind) :
    (st.child p k).Closed cache :=
  (AllHeld.child h p k).imp fun _ hv => hv.mono (.child ..)

theorem define (h : st.Closed cache) {v : Value} (hv : v.Known st) (id : ScopeId)
    (name : String) : (st.define id name v).Closed cache :=
  (AllHeld.define h hv id name).imp fun _ hv => hv.mono (.define ..)

theorem fresh {p : Prelude} (known : p.Known) : (State.fresh p).store.Closed .empty := by
  have filled : (Store.root .global).Extends (State.fresh p).store ∧
      (State.fresh p).store.Closed .empty := by
    refine State.fresh_induction (M := fun st => (Store.root .global).Extends st ∧ st.Closed .empty)
      ⟨.refl _, .root _ _⟩ fun he h => ?_
    exact ⟨h.1.trans (.define ..), h.2.define ((known _ he).mono h.1) _ _⟩
  exact filled.2

end Store.Closed

/-! ## The invariant -/

/-- A store in order, in which no class, instance or module is inside of a scope as
`B` says. -/
def objects (B : ScopeId → ScopeId → ScopeKind → Prop) : Invariant where
  holds st cache := st.Rooted ∧ st.Closed cache ∧
    ∀ id p k, k.IsObject → st.kind? id = some k → st.parent? id = some p → ¬ B id p k
  scope st id := id < st.size
  home st id := id < st.size
  object st id := id < st.size
  opens st p k := k ≠ .global ∧ (k = .ofInstance → st.isClass p = true) ∧
    (k.IsObject → ¬ B st.size p k)

theorem objects_value {B : ScopeId → ScopeId → ScopeKind → Prop} {st : Store} {v : Value} :
    (objects B).value st v ↔ v.Known st := by
  cases v <;> simp [Invariant.value, Value.Known, objects]

theorem objects_kept (B : ScopeId → ScopeId → ScopeKind → Prop) (c : Settings) :
    (objects B).Kept c := by
  have define : ∀ {st cache id name v}, (objects B).holds st cache → (objects B).value st v →
      (objects B).holds (st.define id name v) cache := by
    rintro st cache id name v ⟨rooted, closed, unborn⟩ hv
    refine ⟨rooted.define .., closed.define (objects_value.1 hv) _ _, ?_⟩
    intro other p k hk hkind hp
    exact unborn other p k hk (Store.kind?_define .. ▸ hkind) (Store.parent?_define .. ▸ hp)
  exact {
    moduleCode := fun _ => trivial
    parts := fun _ _ => Form.parts_of_forall (fun _ => trivial) _
    scope_mono := fun extends_ h => Nat.lt_of_lt_of_le h extends_.size_le
    home_mono := fun extends_ h => Nat.lt_of_lt_of_le h extends_.size_le
    object_mono := fun extends_ h => Nat.lt_of_lt_of_le h extends_.size_le
    loaded_mono := fun _ _ => trivial
    home_scope := id
    object_home := id
    global := fun h => h.1.global_lt
    found := fun h _ hv => objects_value.2 (h.2.1.bound.lookup? hv)
    superclass := fun _ _ _ hid _ hp => (Store.lt_of_parent? hp).trans hid
    cached := fun h hid => ⟨h.2.1.kept _ _ hid, trivial⟩
    block_opens := ⟨by simp, by simp, fun h => h.elim⟩
    call_opens := ⟨by simp, by simp, fun h => h.elim⟩
    openScope := by
      rintro st cache p k ⟨rooted, closed, unborn⟩ (hp : p < st.size) ⟨hk, hclass, hB⟩
      have new : st.size < (st.child p k).size := by
        rw [Store.size_child]
        exact Nat.lt_succ_self _
      refine ⟨⟨rooted.child hp hk hclass, closed.child p k, ?_⟩, new, fun _ => new⟩
      intro id q k' hk' hkind hq
      rw [Store.kind?_child] at hkind
      rw [Store.parent?_child] at hq
      split at hkind
      · next here =>
        rw [if_pos here, if_pos hp] at hq
        cases hkind
        cases hq
        exact here ▸ hB hk'
      · next old =>
        rw [if_neg old] at hq
        exact unborn id q k' hk' hkind hq
    loaded := fun _ => trivial
    define := fun h _ hv => define h hv
    assign := fun h _ hv _ => define h hv
    bindModule := fun h _ hid => define h hid
    keep := fun h hid _ => ⟨h.1, Store.AllHeld.keep h.2.1 _ hid, h.2.2⟩ }

/-- What a request speaks of is there. -/
theorem objects_admits {B : ScopeId → ScopeId → ScopeKind → Prop} {st : Store} (h : st.Rooted)
    {q : Request} (known : q.Known st) : (objects B).Admits st q := by
  cases q with
  | run source => exact fun _ _ => ⟨h.global_lt, trivial⟩
  | program e => exact ⟨h.global_lt, trivial⟩
  | eval e env => exact ⟨.inl known, trivial⟩
  | call callee args =>
    exact ⟨objects_value.2 known.1, fun v hv => objects_value.2 (known.2 v hv)⟩

theorem Form.Opens.allowed {eval : Evaluator} {env p : ScopeId} {s : State} {f : Form} {st : Store}
    {k : ScopeKind} (h : f.Opens eval env s st p k) :
    k ≠ .global ∧ (k = .ofInstance → st.isClass p = true) := by
  cases h with
  | ofInstance _ isClass => exact ⟨by simp, fun _ => isClass⟩
  | _ => exact ⟨by simp, by simp⟩

/-! ## Answers -/

/-- The scopes of an interpreter are in order. -/
def Interp.Sound (i : Interp) : Prop := i.state.store.Rooted ∧ i.state.store.Closed i.state.cache

namespace Interp

variable {i : Interp}

theorem Sound.new (c : Settings) {p : Prelude} (known : p.Known) : (Interp.new c p).Sound :=
  ⟨.fresh p, .fresh known⟩

theorem Sound.answer (h : i.Sound) (fuel : Nat) {q : Request} (known : q.Known i.state.store) :
    (i.answer fuel q).2.Sound ∧ i.state.store.Extends (i.answer fuel q).2.state.store := by
  obtain ⟨-, ⟨rooted, closed, -⟩, extended, -⟩ :=
    (objects_kept (fun _ _ _ => False) i.settings).answer_divert (P := fun _ _ _ => False)
      ⟨fun _ _ h => ⟨h.allowed.1, h.allowed.2, fun _ => id⟩, fun _ _ => trivial⟩ (fun _ _ _ => id)
      ⟨h.1, h.2, fun _ _ _ _ _ _ => id⟩ (objects_admits h.1 known) fuel
  exact ⟨⟨rooted, closed⟩, extended⟩

/-- In the course of a request a form is evaluated that opens a scope of this number
and kind, inside the scope `p`. -/
def Opened (i : Interp) (fuel : Nat) (q : Request) (id p : ScopeId) (k : ScopeKind) : Prop :=
  i.Meets fuel q fun e env s => ∃ f n st, Form.classify e = .ok f ∧
    f.Opens (Eval.evaluate i.settings n) env s st p k ∧ st.size = id

/-- Every class, instance or module that is there after a request and was not
before has been opened by a form that puts it where it is. -/
theorem Sound.opened (h : i.Sound) {fuel : Nat} {q : Request} (known : q.Known i.state.store)
    {id p : ScopeId} {k : ScopeKind} (hk : k.IsObject) (new : i.state.store.size ≤ id)
    (kind : (i.answer fuel q).2.state.store.kind? id = some k)
    (parent : (i.answer fuel q).2.state.store.parent? id = some p) : i.Opened fuel q id p k := by
  have K := objects_kept (fun id' p' k' => id' = id ∧ p' = p ∧ k' = k) i.settings
  have unborn : ∀ id' p' k', k'.IsObject → i.state.store.kind? id' = some k' →
      i.state.store.parent? id' = some p' → ¬ (id' = id ∧ p' = p ∧ k' = k) := by
    rintro _ _ _ - kind' - ⟨rfl, -, -⟩
    exact absurd (Store.lt_size_of_kind? kind') (Nat.not_lt.2 new)
  refine (K.meets_or ⟨?_, fun _ _ => trivial⟩ ⟨h.1, h.2, unborn⟩ (objects_admits h.1 known)
    fuel).resolve_right fun after => after.holds.2.2 id p k hk kind parent ⟨rfl, rfl, rfl⟩
  intro n e env s f st p' k' hP hf opens
  refine ⟨opens.allowed.1, opens.allowed.2, ?_⟩
  rintro - ⟨size, rfl, rfl⟩
  exact hP ⟨f, n, st, hf, opens, size⟩

end Interp

/-! ## Nested evaluations -/

/-- An evaluation starts and ends in stores with the object model, however much fuel
it gets, and gives no null as a superclass. -/
structure Eval.Regular (c : Settings) (e : Expr) (env : ScopeId) (s : State) : Prop where
  before : s.store.ObjectModel
  after : ∀ fuel, (evaluate c fuel e env s).2.store.ObjectModel
  superclass : ∀ name, Form.classify e = .ok (.superclass name) →
    ∀ fuel, (evaluate c fuel e env s).1 ≠ .value .null

/-- A class is inside of something. -/
theorem Store.Rooted.superclass_ne_null {st : Store} (h : st.Rooted) {id : ScopeId}
    (isClass : st.isClass id = true) : ((st.parent? id).map Value.scope).getD .null ≠ .null := by
  obtain ⟨name, hname⟩ := Store.isClass_iff.1 isClass
  obtain ⟨p, hp⟩ := h.parent_of_kind? hname (by simp)
  simp [hp]

theorem Interp.Sound.regular {i : Interp} (h : i.Sound) (e : Expr) {env : ScopeId}
    (henv : env < i.state.store.size) : Eval.Regular i.settings e env i.state where
  before := h.1.objectModel
  after fuel := by
    have answered : i.answer fuel (.eval e env) = _ := Interp.answerWith_ok rfl
    have after := (h.answer fuel (q := .eval e env) henv).1.1.objectModel
    rw [answered] at after
    exact after
  superclass name he fuel := by
    cases fuel with
    | zero => simp [Eval.evaluate, Eval.starve]
    | succ fuel =>
      intro null
      have value : Eval.evaluate i.settings (fuel + 1) e env i.state = (.value .null, _) :=
        Prod.ext null rfl
      rw [Eval.evaluate, Eval.step, he] at value
      obtain ⟨v, s₁, found, value⟩ := Eval.bind_eq_value value
      obtain ⟨id, s₂, expected, value⟩ := Eval.bind_eq_value value
      obtain ⟨-, rfl⟩ := Eval.ask_eq_value found
      obtain ⟨rfl, -, isClass⟩ := Eval.expectClass_eq_value expected
      obtain ⟨given, -⟩ := Eval.ask_eq_value value
      exact h.1.superclass_ne_null isClass (Except.ok.inj given)

/-! ## Histories -/

namespace Interp

/-- A request that is answered leads from one interpreter to another. -/
def Step (i j : Interp) : Prop :=
  ∃ fuel q, q.Known i.state.store ∧ (i.answer fuel q).1 ≠ .outOfFuel ∧ j = (i.answer fuel q).2

variable {i : Interp}

theorem Reachable.sound (h : i.Reachable) : i.Sound := by
  induction h with
  | new c known => exact .new c known
  | answer _ known _ ih => exact (ih.answer _ known).1

/-- Some request in the history of an interpreter has opened the scope. -/
def WasOpened (i : Interp) (id p : ScopeId) (k : ScopeKind) : Prop :=
  ∃ (j : Interp) (fuel : Nat) (q : Request), j.Reachable ∧ q.Known j.state.store ∧
    (j.answer fuel q).1 ≠ .outOfFuel ∧ j.Opened fuel q id p k ∧
    Relation.ReflTransGen Step (j.answer fuel q).2 i

/-- Every class, instance or module of a reachable interpreter has been opened by a
form, which has put it where it is. -/
theorem Reachable.wasOpened (h : i.Reachable) {id : ScopeId} {k : ScopeKind} (hk : k.IsObject)
    (kind : i.state.store.kind? id = some k) :
    ∃ p, i.state.store.parent? id = some p ∧ i.WasOpened id p k := by
  induction h with
  | @new c p known =>
    obtain ⟨-, rfl⟩ := State.kind?_fresh.1 kind
    exact hk.elim
  | @answer i fuel q reachable known ends ih =>
    obtain ⟨sound', extended⟩ := reachable.sound.answer fuel known
    by_cases old : id < i.state.store.size
    · obtain ⟨p, hp, j, fuel', q', hj, known', ends', opened, later⟩ :=
        ih ((extended.kind id old).symm.trans kind)
      exact ⟨p, (extended.parent id old).trans hp, j, fuel', q', hj, known', ends', opened,
        later.tail ⟨fuel, q, known, ends, rfl⟩⟩
    · obtain ⟨p, hp⟩ := sound'.1.parent_of_kind? kind (by rintro rfl; exact hk)
      exact ⟨p, hp, i, fuel, q, reachable, known, ends,
        reachable.sound.opened known hk (Nat.le_of_not_lt old) kind hp, .refl⟩

/-- **The object model.** The store of a reachable interpreter has it. Every class,
instance or module there is where the form that opened it, in some request of
the past, has put it: an instance in the class that `new` was given, a class in
its superclass or in the scope of its declaration, a module in the scope of its
declaration. And whatever the interpreter is asked for next, all evaluations in
the course of it are regular: an alarm in place of those that are not is never
noticed. -/
theorem object_model (h : i.Reachable) :
    i.state.store.ObjectModel ∧
      (∀ id k, k.IsObject → i.state.store.kind? id = some k →
        ∃ p, i.state.store.parent? id = some p ∧ i.WasOpened id p k) ∧
      ∀ fuel q, q.Known i.state.store → ∀ alarm,
        i.answerWith (Eval.through i.settings
          (Eval.divert (fun e env s => ¬ Eval.Regular i.settings e env s) alarm) fuel) q =
          i.answer fuel q := by
  refine ⟨h.sound.1.objectModel, fun id k hk kind => h.wasOpened hk kind, fun fuel q known => ?_⟩
  have sound := h.sound
  refine ((objects_kept (fun _ _ _ => False) i.settings).answer_divert
    ⟨fun _ _ h => ⟨h.allowed.1, h.allowed.2, fun _ => not_false⟩, fun _ _ => trivial⟩ ?_
    ⟨sound.1, sound.2, fun _ _ _ _ _ _ => not_false⟩ (objects_admits sound.1 known) fuel).1
  rintro e env s ⟨rooted, closed, -⟩ henv -
  exact not_not.2 (Sound.regular (i := ⟨i.settings, s⟩) ⟨rooted, closed⟩ e henv)

/-- An interpreter that has one class, and an instance of it. -/
def onePoint : Interp :=
  ((Interp.new blankModule (Prelude.empty.constant "null" .null)).answer 9
    (.run "(class Point null (begin)) (new Point)")).2

/-- The class is scope 1, the instance is scope 2. -/
example : onePoint.state.store.className? 2 = some "Point" := by
  cbv

theorem object_model_onePoint :
    onePoint.Reachable ∧ onePoint.state.store.ObjectModel ∧
      (∀ id k, k.IsObject → onePoint.state.store.kind? id = some k →
        ∃ p, onePoint.state.store.parent? id = some p ∧ onePoint.WasOpened id p k) ∧
      ∀ fuel q, q.Known onePoint.state.store → ∀ alarm,
        onePoint.answerWith (Eval.through onePoint.settings
          (Eval.divert (fun e env s => ¬ Eval.Regular onePoint.settings e env s) alarm) fuel) q =
          onePoint.answer fuel q := by
  have known : Prelude.empty.Known := fun _ h => nomatch h
  have h : onePoint.Reachable := by
    refine .answer (.new _ (known.constant _ trivial)) trivial ?_
    cbv
    simp
  exact ⟨h, object_model h⟩

end Interp

end ScopeLisp
