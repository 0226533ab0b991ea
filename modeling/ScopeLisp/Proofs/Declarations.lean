/-
ScopeLisp.Proofs.Declarations — declarations do not leak out of their scope.

The global scope, blocks and calls are where programs declare names. They are no
values, unless `super` makes one of them a value: a class without a superclass
is inside the scope of its declaration. A program without `super` can name only
classes, instances and modules (`Store.Guarded`), so that all it can add names
to from elsewhere are those, and the global scope by imports.

So every such scope keeps its names, but the one that an expression is evaluated
in; and that one, too, if the expression is a block
(`Interp.declarations_stay`).
-/
import ScopeLisp.Proofs.Forms
import ScopeLisp.Proofs.Interposition

namespace ScopeLisp

/-! ## Guarded states -/

/-- A scope is a class, an instance or a module. -/
def Store.HasObject (st : Store) (id : ScopeId) : Prop := ∃ k, st.kind? id = some k ∧ k.IsObject

/-- A scope as a value is a class, an instance or a module, and the body of a closure
has no `super`. -/
def Value.Guarded (st : Store) : Value → Prop
  | .scope id => st.HasObject id
  | .closure f => f.body.Avoids [Keyword.superclass.name]
  | _ => True

/-- All values that a program can come by are guarded. -/
def Store.Guarded (st : Store) (cache : Bindings ScopeId) : Prop :=
  st.AllHeld cache (Value.Guarded st)

theorem Store.HasObject.mono {st st' : Store} {id : ScopeId} (h : st.HasObject id)
    (extends_ : st.Extends st') : st'.HasObject id := by
  obtain ⟨k, hk, object⟩ := h
  exact ⟨k, (extends_.kind id (Store.lt_size_of_kind? hk)).trans hk, object⟩

theorem Value.Guarded.mono {st st' : Store} {v : Value} (h : v.Guarded st)
    (extends_ : st.Extends st') : v.Guarded st' := by
  cases v with
  | scope id => exact Store.HasObject.mono h extends_
  | _ => exact h

namespace Store.Guarded

variable {st : Store} {cache : Bindings ScopeId}

theorem child (h : st.Guarded cache) (p : ScopeId) (k : ScopeKind) :
    (st.child p k).Guarded cache :=
  (AllHeld.child h p k).imp fun _ hv => hv.mono (.child ..)

theorem define (h : st.Guarded cache) {v : Value} (hv : v.Guarded st) (id : ScopeId)
    (name : String) : (st.define id name v).Guarded cache :=
  (AllHeld.define h hv id name).imp fun _ hv => hv.mono (.define ..)

end Store.Guarded

/-! ## Names that stay -/

/-- Since the store was `st₀`, scopes that are no objects have kept their names, but
those in which declarations belong; the global scope may have gained names that
are allowed, at the end. -/
def Store.NamesStay (st₀ : Store) (belong : ScopeId → Prop) (allowed : String → Prop)
    (st : Store) : Prop :=
  ∀ id < st₀.size, ¬ st₀.HasObject id → ¬ belong id →
    ∃ gained, (st.record id).names = (st₀.record id).names ++ gained ∧
      ∀ n ∈ gained, id = State.globalId ∧ allowed n

/-- A run that declares names where they belong and in new scopes and objects, and
imports modules of allowed names. -/
def declaring (st₀ : Store) (belong : ScopeId → Prop) (allowed : String → Prop) : Invariant where
  holds st cache := st₀.Extends st ∧ st.Guarded cache ∧ st₀.NamesStay belong allowed st
  home st id := belong id ∨ st₀.size ≤ id ∨ st.HasObject id
  object := Store.HasObject
  code := Expr.Avoids [Keyword.superclass.name]
  imports := allowed

section Declaring

variable {st₀ st : Store} {belong : ScopeId → Prop} {allowed : String → Prop}
variable {cache : Bindings ScopeId}

theorem declaring_value {v : Value} :
    (declaring st₀ belong allowed).value st v ↔ v.Guarded st := by
  cases v <;> simp [Invariant.value, Value.Guarded, declaring]

namespace Store.NamesStay

theorem refl (st : Store) (belong : ScopeId → Prop) (allowed : String → Prop) :
    st.NamesStay belong allowed st :=
  fun _ _ _ _ => ⟨[], (List.append_nil _).symm, fun _ h => nomatch h⟩

/-- Names stay when something is defined in a scope where it belongs, a new one, or
an object. -/
theorem define (h : st₀.NamesStay belong allowed st) (extends_ : st₀.Extends st) {id : ScopeId}
    (hid : (declaring st₀ belong allowed).home st id) (name : String) (v : Value) :
    st₀.NamesStay belong allowed (st.define id name v) := by
  intro other old noObject elsewhere
  have ne : other ≠ id := by
    rintro rfl
    rcases hid with here | new | ⟨k, hk, object⟩
    · exact elsewhere here
    · exact absurd old (Nat.not_lt.2 new)
    · exact noObject ⟨k, (extends_.kind other old).symm.trans hk, object⟩
  rw [record_define, if_neg fun h => ne h.1]
  exact h other old noObject elsewhere

/-- They stay when a name gets another value. -/
theorem assign (h : st₀.NamesStay belong allowed st) {id : ScopeId} {name : String}
    (bound : name ∈ (st.record id).names) (v : Value) :
    st₀.NamesStay belong allowed (st.define id name v) := by
  intro other old noObject elsewhere
  have same : ((st.define id name v).record other).names = (st.record other).names := by
    rw [record_define]
    split
    · next here => rw [Bindings.names_put, if_pos (here.1 ▸ bound)]
    · rfl
  rw [same]
  exact h other old noObject elsewhere

theorem bindModule (h : st₀.NamesStay belong allowed st) {name : String} (hname : allowed name)
    (v : Value) : st₀.NamesStay belong allowed (st.define State.globalId name v) := by
  intro other old noObject elsewhere
  obtain ⟨gained, names, new⟩ := h other old noObject elsewhere
  rw [record_define]
  split
  · next here =>
    rw [Bindings.names_put]
    split
    · exact ⟨gained, names, new⟩
    · refine ⟨gained ++ [name], by rw [names, List.append_assoc], fun n hn => ?_⟩
      rcases List.mem_append.1 hn with hn | hn
      · exact new n hn
      · rw [List.mem_singleton.1 hn]
        exact ⟨here.1, hname⟩
  · exact ⟨gained, names, new⟩

end Store.NamesStay

end Declaring

theorem declaring_kept {c : Settings} (modules : c.Avoids [Keyword.superclass.name])
    (st₀ : Store) (belong : ScopeId → Prop) (allowed : String → Prop) :
    (declaring st₀ belong allowed).Kept c where
  moduleCode := modules.moduleForm (by decide)
  parts he hf := he.parts (by decide) (by decide) hf
  scope_mono _ _ := trivial
  home_mono extends_ h := h.imp_right (.imp_right (·.mono extends_))
  object_mono extends_ h := h.mono extends_
  loaded_mono _ _ := trivial
  home_scope _ := trivial
  object_home h := .inr (.inr h)
  global _ := trivial
  found h _ hv := declaring_value.2 (h.2.1.bound.lookup? hv)
  superclass := by
    intro e name st cache id p he hf
    obtain rfl := Form.toExpr_of_classify hf
    exact absurd (List.mem_singleton.2 rfl) (Expr.avoids_form.1 he).1
  cached h hid := ⟨h.2.1.kept _ _ hid, trivial⟩
  block_opens := trivial
  call_opens := trivial
  openScope := by
    rintro st cache p k ⟨extended, guarded, stay⟩ _ _
    refine ⟨⟨extended.trans (.child ..), guarded.child p k, ?_⟩, .inr (.inl extended.size_le),
      fun object => ⟨k, ?_, object⟩⟩
    · intro id old noObject elsewhere
      rw [Store.record_child]
      exact stay id old noObject elsewhere
    · rw [Store.kind?_child, if_pos rfl]
  loaded _ := trivial
  define h hid hv := ⟨h.1.trans (.define ..), h.2.1.define (declaring_value.1 hv) _ _,
    h.2.2.define h.1 hid _ _⟩
  assign h _ hv ho := ⟨h.1.trans (.define ..), h.2.1.define (declaring_value.1 hv) _ _,
    h.2.2.assign (Store.mem_chain_of_resolve? ho).2 _⟩
  bindModule h hname hid := ⟨h.1.trans (.define ..),
    h.2.1.define (v := .scope _) hid _ _, h.2.2.bindModule hname _⟩
  keep h hid _ := ⟨h.1, Store.AllHeld.keep h.2.1 _ hid, h.2.2⟩

/-! ## Answers -/

namespace Interp

variable {i : Interp}

/-- A request that belongs to some scopes adds names to no other scope that is no
object, but to the global one those of modules that it imports. -/
theorem names_stay (modules : i.settings.Avoids [Keyword.superclass.name])
    (state : i.state.store.Guarded i.state.cache) {q : Request} {belong : ScopeId → Prop}
    (admits : ∀ allowed, (declaring i.state.store belong allowed).Admits i.state.store q)
    (fuel : Nat) :
    i.state.store.NamesStay belong
      (fun n => i.Meets fuel q fun e _ _ => e.imported? = some n)
      (i.answer fuel q).2.state.store := by
  have start : ∀ allowed,
      (declaring i.state.store belong allowed).holds i.state.store i.state.cache := fun allowed =>
    ⟨.refl _, state, .refl _ _ _⟩
  have K := declaring_kept modules i.state.store belong
  intro id old noObject elsewhere
  have all := (K fun _ => True).answer_holds (fun _ _ _ => trivial) (fun _ => trivial) (start _)
    (admits _) fuel
  obtain ⟨gained, names, global⟩ := all.holds.2.2 id old noObject elsewhere
  refine ⟨gained, names, fun n hn => ⟨(global n hn).1, ?_⟩⟩
  -- Without an import of `n`, the name would not have been gained.
  have spares : (declaring i.state.store belong (· ≠ n)).Spares i.settings
      (fun e _ _ => e.imported? = some n) :=
    ⟨fun _ _ _ => trivial,
      fun other himport same => other (same ▸ Expr.imported?_eq_some.2 himport)⟩
  refine ((K (· ≠ n)).meets_or spares (start _) (admits _) fuel).resolve_right fun without => ?_
  obtain ⟨gained', names', other⟩ := without.holds.2.2 id old noObject elsewhere
  obtain rfl := List.append_cancel_left (names.symm.trans names')
  exact (other n hn).2 rfl

/-- **Declarations do not leak out of their scope.** An expression without `super` is
evaluated, from a state without it, in a scope `env`. However that ends, global
scope, blocks and calls have not become values; and each of them that was there
has the names that it had, in their order, but for names of modules that are
imported in the course of the evaluation, which the global scope may have gained
at the end. Of `env` this is said only if the expression is a block. -/
theorem declarations_stay (modules : i.settings.Avoids [Keyword.superclass.name])
    (state : i.state.store.Guarded i.state.cache) {e : Expr}
    (he : e.Avoids [Keyword.superclass.name]) (env : ScopeId) (fuel : Nat) :
    let q := Request.eval e env
    let s := i.state
    let s' := (i.answer fuel q).2.state
    s'.store.Guarded s'.cache ∧
      (∀ v, (i.answer fuel q).1 = .value v → v.Guarded s'.store) ∧
      ∀ id k, s.store.kind? id = some k → ¬ k.IsObject →
        (id ≠ env ∨ ∃ es, Form.classify e = .ok (.block es)) →
          ∃ gained, (s'.store.record id).names = (s.store.record id).names ++ gained ∧
            ∀ n ∈ gained, id = State.globalId ∧
              i.Meets fuel q fun e' _ _ => e'.imported? = some n := by
  intro q s s'
  have inside : ∀ allowed, (declaring s.store (· = env) allowed).Admits s.store q :=
    fun _ => ⟨.inl (.inl rfl), he⟩
  have all := (declaring_kept modules s.store (· = env) fun _ => True).answer_holds
    (fun _ _ _ => trivial) (fun _ => trivial)
    ⟨.refl _, state, .refl _ _ _⟩ (inside _) fuel
  refine ⟨all.holds.2.1, fun v hv => declaring_value.1 (all.value v hv), ?_⟩
  intro id k hk noObject place
  have old := Store.lt_size_of_kind? hk
  have noObject : ¬ s.store.HasObject id := by
    rintro ⟨k', hk', object⟩
    cases hk.symm.trans hk'
    exact noObject object
  rcases place with elsewhere | block
  · exact names_stay modules state inside fuel id old noObject elsewhere
  · have outside : ∀ allowed, (declaring s.store (fun _ => False) allowed).Admits s.store q :=
      fun _ => ⟨.inr ⟨trivial, block⟩, he⟩
    exact names_stay modules state outside fuel id old noObject not_false

/-- `(begin (var x "here") (import Blank))` -/
def importInBlock : Expr :=
  .block [.form Keyword.declare.name [.symbol "x", .str "here"],
    .form Keyword.importDecl.name [.symbol "Blank"]]

/-- The global scope gets the module, but not what the block declares. -/
example :
    let answered := (Interp.new blankModule .empty).answer 9 (.eval importInBlock State.globalId)
    (answered.2.state.store.record State.globalId).names = ["Blank"] := by
  decide +kernel

theorem declarations_stay_importInBlock :
    let i := Interp.new blankModule .empty
    let q := Request.eval importInBlock State.globalId
    let s := i.state
    let s' := (i.answer 9 q).2.state
    i.settings.Avoids [Keyword.superclass.name] ∧ s.store.Guarded s.cache ∧
      importInBlock.Avoids [Keyword.superclass.name] ∧
      s'.store.Guarded s'.cache ∧
      (∀ v, (i.answer 9 q).1 = .value v → v.Guarded s'.store) ∧
      ∀ id k, s.store.kind? id = some k → ¬ k.IsObject →
        (id ≠ State.globalId ∨ ∃ es, Form.classify importInBlock = .ok (.block es)) →
          ∃ gained, (s'.store.record id).names = (s.store.record id).names ++ gained ∧
            ∀ n ∈ gained, id = State.globalId ∧
              i.Meets 9 q fun e' _ _ => e'.imported? = some n := by
  intro i q s s'
  have modules : i.settings.Avoids [Keyword.superclass.name] := by
    intro name text program htext hprogram
    rw [ofProgram_blankModule htext] at hprogram
    cases hprogram
    exact Expr.avoids_form.2 ⟨by decide, List.forall_mem_nil _⟩
  have state : s.store.Guarded s.cache := .root _ _
  have code : importInBlock.Avoids [Keyword.superclass.name] := by
    simp [importInBlock, Expr.block, Expr.avoids_form, Expr.avoids_symbol, Expr.avoids_str,
      Keyword.name]
  exact ⟨modules, state, code, declarations_stay modules state code State.globalId 9⟩

end Interp

end ScopeLisp
