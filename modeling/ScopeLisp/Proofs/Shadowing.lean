/-
ScopeLisp.Proofs.Shadowing — one rule for all that is done with names.

The owner of a name, seen from a scope, is the first scope of its chain that has the
name (`Store.resolve?_eq_find?`). Looking a name up, assigning to it and defining it
all go by that rule: what is found is what the owner has (`Store.lookup?_eq_bind`), an
assignment writes to the owner, and a definition makes its scope the owner for those
scopes that see it (`Store.Sees`, `Store.resolve?_define_eq_some`).

Scopes are shared, so a write is told from every other scope, too: what a definition
does to the owners of a name settles what it does to every look-up, and an assignment
is a definition where the name is owned (`Eval.one_shadowing_rule`).
-/
import ScopeLisp.Eval.State
import Mathlib.Data.List.Basic

namespace ScopeLisp

/-! ## Writing to a record -/

/-- One entry has another value, in its place. -/
def Bindings.Replaces {α : Type} (b : Bindings α) (name : String) (a : α) (b' : Bindings α) :
    Prop :=
  ∃ before old after, b.entries = before ++ (name, old) :: after ∧
    (∀ e ∈ before, e.1 ≠ name) ∧ b'.entries = before ++ (name, a) :: after

namespace Bindings

variable {α : Type} {b : Bindings α} {name : String}

/-- A name that is there is put in its place. -/
theorem replaces_put (h : b.has name = true) (a : α) : b.Replaces name a (b.put name a) := by
  obtain ⟨old, found⟩ := Option.isSome_iff_exists.1 h
  obtain ⟨before, after, split, others⟩ := List.lookup_eq_some_iff.1 found
  have first : ∀ e ∈ before, e.1 ≠ name := by
    rintro e he rfl
    simpa using others e he
  have notBefore : name ∉ before.map Prod.fst := by
    rw [List.mem_map]
    rintro ⟨e, he, same⟩
    exact first e he same
  refine ⟨before, old, after, split, first, ?_⟩
  rw [put, split, putEntry_append, if_neg notBefore]
  simp [putEntry]

/-- A new name is put at the end. -/
theorem entries_put_of_not_has (h : b.has name = false) (a : α) :
    (b.put name a).entries = b.entries ++ [(name, a)] := by
  have absent : name ∉ b.names := get?_eq_none_iff.1 (by simpa [has] using h)
  have whole := putEntry_append b.entries [] name a
  rw [List.append_nil] at whole
  exact whole.trans (if_neg absent)

end Bindings

namespace Store

variable {st st' : Store} {s t o : ScopeId} {n m : String} {v : Value}

/-- Nothing but the record of one scope has changed. -/
structure Rewrites (st : Store) (id : ScopeId) (st' : Store) : Prop where
  size : st'.size = st.size
  kind : ∀ o, st'.kind? o = st.kind? o
  parent : ∀ o, st'.parent? o = st.parent? o
  record : ∀ o, o ≠ id → st'.record o = st.record o

theorem rewrites_define (st : Store) (s : ScopeId) (n : String) (v : Value) :
    st.Rewrites s (st.define s n v) where
  size := size_define ..
  kind _ := kind?_define ..
  parent _ := parent?_define ..
  record o ne := by rw [record_define, if_neg fun h => ne h.1]

theorem record_define_self (hs : s < st.size) (n : String) (v : Value) :
    (st.define s n v).record s = (st.record s).put n v := by
  rw [record_define, if_pos ⟨rfl, hs⟩]

theorem hasOwn_define (hs : s < st.size) (n : String) (v : Value) (o : ScopeId) (m : String) :
    (st.define s n v).hasOwn o m = (decide (o = s ∧ m = n) || st.hasOwn o m) := by
  simp only [hasOwn, Bindings.has, get?_record_define]
  by_cases h : o = s ∧ m = n <;> simp [h, hs]

theorem hasOwn_eq_false_of_define (hs : s < st.size)
    (h : (st.define s n v).hasOwn o m = false) : st.hasOwn o m = false := by
  rw [hasOwn_define hs] at h
  exact (Bool.or_eq_false_iff.1 h).2

theorem chain_define (st : Store) (s : ScopeId) (n : String) (v : Value) (t : ScopeId) :
    (st.define s n v).chain t = st.chain t := by
  induction t using Nat.strongRecOn with
  | ind t ih =>
    rw [chain_eq, chain_eq, parent?_define]
    cases hp : st.parent? t with
    | none => rfl
    | some p => simp [ih p (lt_of_parent? hp)]

/-! ## Owners -/

/-- A scope sees what another one has for a name: it is inside it, and nothing before
it on the way up has the name. -/
def Sees (st : Store) (t s : ScopeId) (name : String) : Prop :=
  ∃ before after, st.chain t = before ++ s :: after ∧ ∀ o ∈ before, st.hasOwn o name = false

/-- The owner of a name is the first scope of the chain that has it. -/
theorem resolve?_eq_find? (st : Store) (t : ScopeId) (n : String) :
    st.resolve? t n = (st.chain t).find? (st.hasOwn · n) := by
  induction t using Nat.strongRecOn with
  | ind t ih =>
    rw [resolve?_eq, chain_eq, List.find?_cons]
    cases st.hasOwn t n with
    | true => rfl
    | false =>
      cases hp : st.parent? t with
      | none => rfl
      | some p => exact ih p (lt_of_parent? hp)

/-- Looking a name up gives what its owner has. -/
theorem lookup?_eq_bind (st : Store) (t : ScopeId) (n : String) :
    st.lookup? t n = (st.resolve? t n).bind fun o => (st.record o).get? n := by
  induction t using Nat.strongRecOn with
  | ind t ih =>
    rw [resolve?_eq, lookup?_eq]
    cases found : (st.record t).get? n with
    | some value => simp [hasOwn, Bindings.has, found]
    | none =>
      have absent : st.hasOwn t n = false := by simp [hasOwn, Bindings.has, found]
      rw [absent]
      cases hp : st.parent? t with
      | none => rfl
      | some p => exact ih p (lt_of_parent? hp)

/-- The owner of a name has it, and is seen. -/
theorem resolve?_eq_some_iff : st.resolve? t n = some o ↔ st.hasOwn o n = true ∧ st.Sees t o n := by
  rw [resolve?_eq_find?, List.find?_eq_some_iff_append]
  simp [Sees]

theorem resolve?_eq_none_iff :
    st.resolve? t n = none ↔ ∀ o ∈ st.chain t, st.hasOwn o n = false := by
  rw [resolve?_eq_find?]
  simp

/-- An owner has a value for the name, and that is what is found. -/
theorem exists_get?_of_resolve? (h : st.resolve? t n = some o) :
    ∃ w, (st.record o).get? n = some w ∧ st.lookup? t n = some w := by
  obtain ⟨w, found⟩ := Option.isSome_iff_exists.1 (resolve?_eq_some_iff.1 h).1
  exact ⟨w, found, by rw [lookup?_eq_bind, h, Option.bind_some, found]⟩

theorem lookup?_of_resolve?_eq_none (h : st.resolve? t n = none) : st.lookup? t n = none := by
  rw [lookup?_eq_bind, h, Option.bind_none]

/-! ## Owners after a definition -/

/-- A chain goes from younger scopes to older ones. -/
theorem chain_pairwise (st : Store) (t : ScopeId) : (st.chain t).Pairwise (· > ·) := by
  induction t using Nat.strongRecOn with
  | ind t ih =>
    rw [chain_eq]
    cases hp : st.parent? t with
    | none => simp
    | some p =>
      have older : ∀ o ∈ st.chain p, o ≤ p :=
        forall_mem_chain (Nat.le_refl p) fun a q ha hq =>
          Nat.le_of_lt (Nat.lt_of_lt_of_le (lt_of_parent? hq) ha)
      refine List.pairwise_cons.2 ⟨fun o ho => ?_, ih p (lt_of_parent? hp)⟩
      exact Nat.lt_of_le_of_lt (older o ho) (lt_of_parent? hp)

/-- What is seen stands once in the chain. -/
theorem not_mem_before {before after : List ScopeId} (h : st.chain t = before ++ s :: after) :
    s ∉ before := by
  intro hs
  have younger := (List.pairwise_append.1 (h ▸ st.chain_pairwise t)).2.2
  exact Nat.lt_irrefl s (younger s hs s List.mem_cons_self)

/-- A definition makes its scope the owner for the scopes that see it. -/
theorem resolve?_define_eq_some (hs : s < st.size) :
    (st.define s n v).resolve? t n = some s ↔ st.Sees t s n := by
  rw [resolve?_eq_some_iff, Sees, chain_define]
  constructor
  · rintro ⟨-, before, after, split, unowned⟩
    exact ⟨before, after, split, fun o ho => hasOwn_eq_false_of_define hs (unowned o ho)⟩
  · rintro ⟨before, after, split, unowned⟩
    refine ⟨by simp [hasOwn_define hs], before, after, split, fun o ho => ?_⟩
    have other : o ≠ s := fun same => not_mem_before split (same ▸ ho)
    simp [hasOwn_define hs, other, unowned o ho]

/-- For all other scopes, and for all other names, the owner is as before. -/
theorem resolve?_define_of_not (hs : s < st.size) (other : ¬ (m = n ∧ st.Sees t s n)) :
    (st.define s n v).resolve? t m = st.resolve? t m := by
  by_cases same : m = n
  · subst same
    have unseen : ¬ st.Sees t s m := fun sees => other ⟨rfl, sees⟩
    cases now : (st.define s m v).resolve? t m with
    | none =>
      rw [resolve?_eq_none_iff, chain_define] at now
      exact (resolve?_eq_none_iff.2 fun o ho => hasOwn_eq_false_of_define hs (now o ho)).symm
    | some o =>
      have ne : o ≠ s := by
        rintro rfl
        exact unseen ((resolve?_define_eq_some hs).1 now)
      obtain ⟨own, before, after, split, unowned⟩ := resolve?_eq_some_iff.1 now
      rw [chain_define] at split
      have owned : st.hasOwn o m = true := by simpa [hasOwn_define hs, ne] using own
      exact (resolve?_eq_some_iff.2 ⟨owned, before, after, split, fun o' ho' =>
        hasOwn_eq_false_of_define hs (unowned o' ho')⟩).symm
  · have kept : ∀ o, (st.define s n v).hasOwn o m = st.hasOwn o m := by
      intro o
      simp [hasOwn_define hs, same]
    simp only [resolve?_eq_find?, chain_define, kept]

/-- What is found after a definition: the new value from where it is seen, and what was
found before from anywhere else. -/
theorem lookup?_define_of_sees (hs : s < st.size) (sees : st.Sees t s n) :
    (st.define s n v).lookup? t n = some v := by
  rw [lookup?_eq_bind, (resolve?_define_eq_some hs).2 sees, Option.bind_some,
    get?_record_define, if_pos ⟨rfl, hs, rfl⟩]

theorem lookup?_define_of_not (hs : s < st.size) (other : ¬ (m = n ∧ st.Sees t s n)) :
    (st.define s n v).lookup? t m = st.lookup? t m := by
  rw [lookup?_eq_bind, lookup?_eq_bind, resolve?_define_of_not hs other]
  cases owner : st.resolve? t m with
  | none => rfl
  | some o =>
    -- The owner is another scope than that of the definition, or the name is another one.
    have elsewhere : ¬ (o = s ∧ s < st.size ∧ m = n) := by
      rintro ⟨rfl, -, rfl⟩
      exact other ⟨rfl, (resolve?_eq_some_iff.1 owner).2⟩
    simp only [Option.bind_some, get?_record_define, if_neg elsewhere]

/-- What is found after a definition where the name is owned already. -/
theorem lookup?_define_owner (hs : s < st.size) (own : st.hasOwn s n = true) :
    (st.define s n v).lookup? t m =
      if m = n ∧ st.resolve? t n = some s then some v else st.lookup? t m := by
  have sees : st.resolve? t n = some s ↔ st.Sees t s n := by simp [resolve?_eq_some_iff, own]
  split
  · next h =>
    obtain ⟨rfl, owner⟩ := h
    exact lookup?_define_of_sees hs (sees.1 owner)
  · next h => exact lookup?_define_of_not hs fun ⟨same, seen⟩ => h ⟨same, sees.2 seen⟩

end Store

namespace Eval

/-! ## The rule -/

variable {σ : State} {s : ScopeId}

/-- **One shadowing rule.** A name is resolved to the first scope of the chain whose own
record has it. Looking it up gives the value there, and fails when there is no such
scope. Assigning succeeds in just that case, and then replaces that one value in its
place: the name is found with the new value from the scopes that resolve it to the same
owner, and every other look-up is as before; when it fails, nothing is changed. Defining
changes the record of the scope itself, in place or at the end; the name is then
resolved to that scope by those that see it and by no other, they find the new value,
and every other look-up is as before. -/
theorem one_shadowing_rule (hs : s < σ.store.size) (n : String) (v : Value) :
    let st := σ.store
    st.resolve? s n = (st.chain s).find? (st.hasOwn · n) ∧
      (match st.resolve? s n with
        | some o => ∃ w, (st.record o).get? n = some w ∧ lookup s n σ = (.value w, σ)
        | none => lookup s n σ = (.error (.unbound n), σ)) ∧
      (match st.resolve? s n with
        | some o => ∃ st', assign s n v σ = (.value v, { σ with store := st' }) ∧
            st.assign? s n v = some st' ∧
            st.Rewrites o st' ∧ (st.record o).Replaces n v (st'.record o) ∧
            ∀ t m, st'.lookup? t m =
              if m = n ∧ st.resolve? t n = some o then some v else st.lookup? t m
        | none => assign s n v σ = (.error (.unbound n), σ) ∧ st.assign? s n v = none) ∧
      ∃ st', define s n v σ = (.value v, { σ with store := st' }) ∧ st.define s n v = st' ∧
        st.Rewrites s st' ∧
        (st.hasOwn s n = true → (st.record s).Replaces n v (st'.record s)) ∧
        (st.hasOwn s n = false → (st'.record s).entries = (st.record s).entries ++ [(n, v)]) ∧
        (∀ t, st'.resolve? t n = some s ↔ st.Sees t s n) ∧
        (∀ t, st.Sees t s n → st'.lookup? t n = some v) ∧
        ∀ t m, ¬ (m = n ∧ st.Sees t s n) → st'.lookup? t m = st.lookup? t m := by
  intro st
  refine ⟨st.resolve?_eq_find? s n, ?_, ?_, ?_⟩
  · cases owner : st.resolve? s n with
    | some o =>
      obtain ⟨w, held, found⟩ := Store.exists_get?_of_resolve? owner
      exact ⟨w, held, by simp only [lookup, ask, st, found]⟩
    | none =>
      have absent := Store.lookup?_of_resolve?_eq_none owner
      simp only [lookup, ask, st, absent]
  · cases owner : st.resolve? s n with
    | some o =>
      have own := (Store.resolve?_eq_some_iff.1 owner).1
      have here : o < st.size := by
        obtain ⟨w, held, -⟩ := Store.exists_get?_of_resolve? owner
        exact Store.lt_size_of_get? held
      refine ⟨st.define o n v, ?_, ?_, Store.rewrites_define .., ?_,
        fun t m => Store.lookup?_define_owner here own⟩
      · simp only [assign, st, owner]
        rfl
      · rw [Store.assign?, owner, Option.map_some]
      · exact Store.record_define_self here n v ▸ Bindings.replaces_put own v
    | none =>
      refine ⟨?_, by rw [Store.assign?, owner, Option.map_none]⟩
      simp only [assign, st, owner]
  · refine ⟨st.define s n v, rfl, rfl, Store.rewrites_define .., fun own => ?_, fun new => ?_,
      fun t => Store.resolve?_define_eq_some hs, fun t => Store.lookup?_define_of_sees hs,
      fun t m => Store.lookup?_define_of_not hs⟩
    all_goals rw [Store.record_define_self hs]
    · exact Bindings.replaces_put own v
    · exact Bindings.entries_put_of_not_has new v

/-- A class with a name of its own for what is also a global name, with an instance, and
a block beside it. -/
def classAndBlock : State :=
  let global := (Store.root .global).define 0 "x" .null
  let ofClass := (global.child 0 (.ofClass "A")).define 1 "x" (.bool true)
  { State.fresh .empty with store := (ofClass.child 1 .ofInstance).child 0 .block }

/-- An assignment from the instance is seen in the class, and not in the block. -/
theorem one_shadowing_rule_classAndBlock :
    2 < classAndBlock.store.size ∧ ∃ st',
      assign 2 "x" .undefined classAndBlock =
          (.value .undefined, { classAndBlock with store := st' }) ∧
        st'.lookup? 1 "x" = some .undefined ∧ st'.lookup? 3 "x" = some .null := by
  have here : 2 < classAndBlock.store.size := by decide
  have owner : classAndBlock.store.resolve? 2 "x" = some 1 := by decide +kernel
  obtain ⟨-, -, assigned, -⟩ := one_shadowing_rule here "x" .undefined
  rw [owner] at assigned
  obtain ⟨st', assigned, -, -, -, found⟩ := assigned
  refine ⟨here, st', assigned, ?_, ?_⟩
  · have seen : classAndBlock.store.resolve? 1 "x" = some 1 := by decide +kernel
    exact (found 1 "x").trans (if_pos ⟨rfl, seen⟩)
  · have unseen : classAndBlock.store.resolve? 3 "x" = some 0 := by decide +kernel
    have before : classAndBlock.store.lookup? 3 "x" = some .null := by
      rw [Store.lookup?_eq_bind, unseen]
      rfl
    refine (found 3 "x").trans ((if_neg ?_).trans before)
    rw [unseen]
    simp

end Eval

end ScopeLisp
