/-
ScopeLisp.Proofs.Reachability — evaluation touches only what it can reach.

One scope leads to another by being inside it, by having it as the value of a
name, or by having a function that was made in it (`Store.Link`). What a request
can reach is what its scope and values, the global scope and the kept modules
lead to (`Interp.Reaches`).

While a request is answered, what can be reached changes: records are written
and scopes are opened. What stays closed under links is what could be reached at
the start, with the new scopes besides (`Store.Confined`). So nothing outside is
ever touched, and nothing comes to lead outside
(`Interp.touches_only_reached`).
-/
import ScopeLisp.Proofs.Interposition
import Mathlib.Logic.Relation

namespace ScopeLisp

/-! ## Links between scopes -/

/-- The scope that a value leads to: the scope that it is, or the one that it was
made in. -/
def Value.leadsTo? : Value → Option ScopeId
  | .scope id => some id
  | .closure f => some f.scope
  | _ => none

namespace Store

/-- One scope leads to another directly. -/
inductive Link (st : Store) (a : ScopeId) : ScopeId → Prop
  | parent {b : ScopeId} (inside : st.parent? a = some b) : Link st a b
  | bound {name : String} {v : Value} {b : ScopeId} (bound : (st.record a).get? name = some v)
    (leads : v.leadsTo? = some b) : Link st a b

/-- A scope is one of the roots, or one of them leads to it through others. -/
def Reaches (st : Store) (roots : ScopeId → Prop) (id : ScopeId) : Prop :=
  ∃ root, roots root ∧ Relation.ReflTransGen st.Link root id

theorem Reaches.link {st : Store} {roots : ScopeId → Prop} {a b : ScopeId}
    (h : st.Reaches roots a) (link : st.Link a b) : st.Reaches roots b := by
  obtain ⟨root, hroot, path⟩ := h
  exact ⟨root, hroot, path.tail link⟩

theorem Reaches.root {st : Store} {roots : ScopeId → Prop} {id : ScopeId} (h : roots id) :
    st.Reaches roots id :=
  ⟨id, h, .refl⟩

/-- What is reached from within a set that is closed under links is in it. -/
theorem Reaches.of_closed {st : Store} {roots S : ScopeId → Prop} {id : ScopeId}
    (h : st.Reaches roots id) (start : ∀ root, roots root → S root)
    (closed : ∀ a b, S a → st.Link a b → S b) : S id := by
  obtain ⟨root, hroot, path⟩ := h
  induction path with
  | refl => exact start root hroot
  | tail _ link ih => exact closed _ _ ih link

theorem Link.lt_size {st : Store} {a b : ScopeId} (h : st.Link a b) : a < st.size := by
  cases h with
  | parent inside => exact lt_size_of_parent? inside
  | bound bound _ => exact lt_size_of_get? bound

/-- A new scope leads to its parent and nowhere else; the others lead where they
did. -/
theorem Link.of_child {st : Store} {p a b : ScopeId} {k : ScopeKind}
    (h : (st.child p k).Link a b) : st.Link a b ∨ a = st.size ∧ b = p := by
  cases h with
  | parent inside =>
    rw [parent?_child] at inside
    split at inside
    · next new =>
      split at inside
      · cases inside
        exact .inr ⟨new, rfl⟩
      · cases inside
    · exact .inl (.parent inside)
  | bound bound leads => exact .inl (.bound (record_child .. ▸ bound) leads)

/-- A definition adds no link but that of its value. -/
theorem Link.of_define {st : Store} {id a b : ScopeId} {name : String} {v : Value}
    (h : (st.define id name v).Link a b) : st.Link a b ∨ a = id ∧ v.leadsTo? = some b := by
  cases h with
  | parent inside => exact .inl (.parent (parent?_define .. ▸ inside))
  | bound bound leads =>
    rw [get?_record_define] at bound
    split at bound
    · next here =>
      cases bound
      exact .inr ⟨here.1, leads⟩
    · exact .inl (.bound bound leads)

end Store

/-! ## What a request can reach -/

/-- The scopes that a request speaks of. -/
def Request.Mentions : Request → ScopeId → Prop
  | run _, _ | program _, _ => False
  | .eval _ env, id => id = env
  | call callee args, id => callee.leadsTo? = some id ∨ ∃ v ∈ args, v.leadsTo? = some id

namespace Interp

/-- Where the answer to a request starts from: the scopes that it speaks of, the
global scope and the kept modules. -/
inductive Root (i : Interp) (q : Request) : ScopeId → Prop
  | mentioned {id : ScopeId} (mentioned : q.Mentions id) : Root i q id
  | global : Root i q State.globalId
  | module {name : String} {id : ScopeId} (kept : i.state.cache.get? name = some id) : Root i q id

/-- A scope can be reached by a request. -/
def Reaches (i : Interp) (q : Request) : ScopeId → Prop := i.state.store.Reaches (i.Root q)

end Interp

/-! ## A fixed set that stays closed -/

/-- A scope is in a fixed set, or it is new since there were `n` scopes. -/
def Store.Granted (n : Nat) (R : ScopeId → Prop) (st : Store) (id : ScopeId) : Prop :=
  R id ∨ n ≤ id ∧ id < st.size

/-- Since the store was `st₀`, nothing but granted scopes has been touched, and they
lead to granted scopes only. -/
structure Store.Confined (st₀ : Store) (R : ScopeId → Prop) (st : Store)
    (cache : Bindings ScopeId) : Prop where
  size_le : st₀.size ≤ st.size
  global : R State.globalId
  closed : ∀ a b, Granted st₀.size R st a → st.Link a b → Granted st₀.size R st b
  kept : ∀ name id, cache.get? name = some id → Granted st₀.size R st id
  untouched : ∀ id < st₀.size, ¬ R id → st.scope? id = st₀.scope? id

/-- A run that is confined to a set of scopes and to those that it opens. -/
def confined (st₀ : Store) (R : ScopeId → Prop) : Invariant where
  holds := st₀.Confined R
  scope := Store.Granted st₀.size R
  home := Store.Granted st₀.size R
  object := Store.Granted st₀.size R

namespace Store

variable {st₀ st st' : Store} {R : ScopeId → Prop} {cache : Bindings ScopeId}

theorem Granted.mono {n : Nat} {id : ScopeId} (h : st.Granted n R id)
    (extends_ : st.Extends st') : st'.Granted n R id :=
  h.imp_right fun ⟨new, lt⟩ => ⟨new, lt.trans_le extends_.size_le⟩

theorem confined_value {v : Value} :
    (confined st₀ R).value st v ↔ ∀ id, v.leadsTo? = some id → st.Granted st₀.size R id := by
  cases v <;> simp [Invariant.value, Value.leadsTo?, confined]

/-- What can be reached from granted scopes is granted. -/
theorem Confined.granted_of_reaches (h : st₀.Confined R st cache) {roots : ScopeId → Prop}
    {id : ScopeId} (reach : st.Reaches roots id)
    (start : ∀ root, roots root → st.Granted st₀.size R root) : st.Granted st₀.size R id :=
  reach.of_closed start h.closed

theorem Confined.chain (h : st₀.Confined R st cache) {id : ScopeId}
    (hid : st.Granted st₀.size R id) : ∀ o ∈ st.chain id, st.Granted st₀.size R o :=
  forall_mem_chain hid fun a p ha hp => h.closed a p ha (.parent hp)

theorem Confined.define (h : st₀.Confined R st cache) {id : ScopeId} {name : String} {v : Value}
    (hid : st.Granted st₀.size R id) (hv : (confined st₀ R).value st v) :
    st₀.Confined R (st.define id name v) cache := by
  have same : ∀ {b}, (st.define id name v).Granted st₀.size R b ↔ st.Granted st₀.size R b := by
    intro b
    rw [Granted, size_define, Granted]
  refine ⟨?_, h.global, ?_, fun n b hb => same.2 (h.kept n b hb), ?_⟩
  · rw [size_define]
    exact h.size_le
  · intro a b ha link
    rcases link.of_define with link | ⟨-, leads⟩
    · exact same.2 (h.closed a b (same.1 ha) link)
    · exact same.2 (confined_value.1 hv b leads)
  · intro other hlt outside
    have ne : id ≠ other := by
      rintro rfl
      rcases hid with inside | ⟨new, -⟩
      · exact outside inside
      · omega
    rw [scope?_define, if_neg ne]
    exact h.untouched other hlt outside

theorem Confined.child (h : st₀.Confined R st cache) {p : ScopeId}
    (hp : st.Granted st₀.size R p) (k : ScopeKind) : st₀.Confined R (st.child p k) cache := by
  have extended := Extends.child st p k
  refine ⟨h.size_le.trans extended.size_le, h.global, ?_,
    fun n b hb => (h.kept n b hb).mono extended, ?_⟩
  · intro a b ha link
    rcases link.of_child with link | ⟨-, rfl⟩
    · exact (h.closed a b (ha.imp_right fun new => ⟨new.1, link.lt_size⟩) link).mono extended
    · exact hp.mono extended
  · intro other hlt outside
    rw [scope?_child_of_lt (hlt.trans_le h.size_le)]
    exact h.untouched other hlt outside

end Store

open Store in
theorem confined_kept (c : Settings) (st₀ : Store) (R : ScopeId → Prop) :
    (confined st₀ R).Kept c where
  moduleCode _ := trivial
  parts _ _ := Form.parts_of_forall (fun _ => trivial) _
  scope_mono extends_ h := h.mono extends_
  home_mono extends_ h := h.mono extends_
  object_mono extends_ h := h.mono extends_
  loaded_mono _ _ := trivial
  home_scope h := h
  object_home h := h
  global h := .inl h.global
  found := by
    intro st cache id name v h hid hv
    obtain ⟨owner, howner, hv⟩ := exists_mem_chain_of_lookup? hv
    exact confined_value.2 fun b leads =>
      h.closed owner b (h.chain hid owner howner) (.bound hv leads)
  superclass _ _ h hid _ hp := h.closed _ _ hid (.parent hp)
  cached h hid := ⟨h.kept _ _ hid, trivial⟩
  block_opens := trivial
  call_opens := trivial
  openScope := by
    intro st cache p k h hp _
    have new : (st.child p k).Granted st₀.size R st.size := by
      refine .inr ⟨h.size_le, ?_⟩
      rw [size_child]
      exact Nat.lt_succ_self _
    exact ⟨h.child hp k, new, fun _ => new⟩
  loaded _ := trivial
  define h hid hv := h.define hid hv
  assign h hid hv ho := h.define (h.chain hid _ (mem_chain_of_resolve? ho).1) hv
  bindModule h _ hid := h.define (.inl h.global) hid
  keep h hid _ := { h with kept := Bindings.forall_get?_put hid h.kept }

/-! ## Answers -/

namespace Interp

/-- What a request speaks of is granted to it. -/
theorem confined_admits (i : Interp) (q : Request) :
    (confined i.state.store (i.Reaches q)).Admits i.state.store q := by
  have value : ∀ {v}, (∀ id, v.leadsTo? = some id → q.Mentions id) →
      (confined i.state.store (i.Reaches q)).value i.state.store v := fun h =>
    Store.confined_value.2 fun id leads => .inl (.root (.mentioned (h id leads)))
  have global : i.state.store.Granted i.state.store.size (i.Reaches q) State.globalId :=
    .inl (.root .global)
  cases q with
  | run source => exact fun _ _ => ⟨global, trivial⟩
  | program e => exact ⟨global, trivial⟩
  | eval e env => exact ⟨.inl (.inl (.root (.mentioned rfl))), trivial⟩
  | call callee args =>
    exact ⟨value fun _ => .inl, fun v hv => value fun _ leads => .inr ⟨v, hv, leads⟩⟩

/-- **Evaluation touches only what it can reach.** Whatever is asked and however it
ends, a scope that could not be reached is afterwards what it was, with the
same names and values in the same order; and everything that the value of the
request, or a scope that has changed, leads to afterwards is new, or could be
reached before. -/
theorem touches_only_reached (i : Interp) (fuel : Nat) (q : Request) :
    let st := i.state.store
    let st' := (i.answer fuel q).2.state.store
    (∀ id < st.size, ¬ i.Reaches q id → st'.scope? id = st.scope? id) ∧
      (∀ v, (i.answer fuel q).1 = .value v →
        ∀ id, st'.Reaches (v.leadsTo? = some ·) id →
          i.Reaches q id ∨ st.size ≤ id ∧ id < st'.size) ∧
      ∀ changed, st'.scope? changed ≠ st.scope? changed →
        ∀ id, st'.Reaches (· = changed) id → i.Reaches q id ∨ st.size ≤ id ∧ id < st'.size := by
  intro st st'
  have start : st.Confined (i.Reaches q) st i.state.cache :=
    { size_le := Nat.le_refl _
      global := .root .global
      closed := by
        rintro a b (reached | ⟨new, old⟩) link
        · exact .inl (reached.link link)
        · exact absurd old (Nat.not_lt.2 new)
      kept := fun name id kept => .inl (.root (.module kept))
      untouched := fun _ _ _ => rfl }
  obtain ⟨holds, -, value⟩ := (confined_kept i.settings st (i.Reaches q)).answer_holds
    (fun _ _ _ => trivial) (fun _ => trivial) start (confined_admits i q) fuel
  refine ⟨holds.untouched, fun v hv id reach => ?_, fun changed hchanged id reach => ?_⟩
  · exact holds.granted_of_reaches reach (Store.confined_value.1 (value v hv))
  · refine holds.granted_of_reaches reach ?_
    intro root hroot
    rw [hroot]
    by_cases old : changed < st.size
    · exact .inl (not_not.1 fun outside => hchanged (holds.untouched _ old outside))
    · refine .inr ⟨Nat.le_of_not_lt old, Nat.lt_of_not_le fun out => hchanged ?_⟩
      rw [Store.scope?_eq_none out, Store.scope?_eq_none (Nat.le_of_not_lt old)]

end Interp

end ScopeLisp
