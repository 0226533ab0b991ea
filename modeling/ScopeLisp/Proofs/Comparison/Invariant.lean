/-
ScopeLisp.Proofs.Comparison.Invariant — what one run keeps of its scopes.

An invariant speaks of the scopes and of the modules that are kept, and of the
scopes, modules and expressions that a run may meet. `Invariant.Kept` asks what
opening a scope, writing to a record and keeping a module have to preserve; what
holds of a scope goes on holding when the store is extended. Calls, imports and
prints are then of no concern: compared with itself, the run is lawful
(`Invariant.Kept.lawful`).
-/
import ScopeLisp.Proofs.Comparison.Evaluation

namespace ScopeLisp

/-- What a run keeps. The fields after `holds` ask nothing unless they are
given. -/
structure Invariant where
  /-- Scopes and kept modules are in order. -/
  holds : Store → Bindings ScopeId → Prop
  /-- Scopes that the run may read from. -/
  scope : Store → ScopeId → Prop := fun _ _ => True
  /-- Scopes that it may declare in. -/
  home : Store → ScopeId → Prop := fun _ _ => True
  /-- Scopes that it may have as values. -/
  object : Store → ScopeId → Prop := fun _ _ => True
  loaded : Store → String → ScopeId → Prop := fun _ _ _ => True
  code : Expr → Prop := fun _ => True
  opens : Store → ScopeId → ScopeKind → Prop := fun _ _ _ => True
  imports : String → Prop := fun _ => True

namespace Invariant

/-- Values that the run may have. -/
def value (I : Invariant) (st : Store) : Value → Prop
  | .scope id => I.object st id
  | .closure f => I.scope st f.scope ∧ I.code f.body
  | _ => True

/-- The run compared with itself, or with one that ends early. -/
def comparison (I : Invariant) (ahead : Option RuntimeError → Prop) : Comparison where
  rel s t := s = t ∧ I.holds s.store s.cache
  grow s s' := s.store.Extends s'.store
  scope := I.scope
  home := I.home
  value := I.value
  loaded := I.loaded
  code := I.code
  opens := I.opens
  imports := I.imports
  ahead := ahead

/-- What has to be preserved for an invariant to be kept. -/
structure Kept (I : Invariant) (c : Settings) : Prop where
  moduleCode : ∀ {name e}, Eval.moduleForm c name = .ok e → I.code e
  parts : ∀ {e f}, I.code e → Form.classify e = .ok f → f.Parts I.code I.code fun _ => True
  -- Changes
  scope_mono : ∀ {st st' id}, st.Extends st' → I.scope st id → I.scope st' id
  home_mono : ∀ {st st' id}, st.Extends st' → I.home st id → I.home st' id
  object_mono : ∀ {st st' id}, st.Extends st' → I.object st id → I.object st' id
  loaded_mono : ∀ {st st' name id}, st.Extends st' → I.loaded st name id → I.loaded st' name id
  home_scope : ∀ {st id}, I.home st id → I.scope st id
  object_home : ∀ {st id}, I.object st id → I.home st id
  -- Reading
  global : ∀ {st cache}, I.holds st cache → I.scope st State.globalId
  found : ∀ {st cache id name v}, I.holds st cache → I.scope st id →
    st.lookup? id name = some v → I.value st v
  superclass : ∀ {e name st cache id p}, I.code e → Form.classify e = .ok (.superclass name) →
    I.holds st cache → I.object st id → st.isClass id = true → st.parent? id = some p →
    I.object st p
  cached : ∀ {st cache name id}, I.holds st cache → cache.get? name = some id →
    I.object st id ∧ I.loaded st name id
  -- Writing
  block_opens : ∀ {st p}, I.opens st p .block
  call_opens : ∀ {st p}, I.opens st p .activation
  openScope : ∀ {st cache p k}, I.holds st cache → I.scope st p → I.opens st p k →
    I.holds (st.child p k) cache ∧ I.home (st.child p k) st.size ∧
      (k.IsObject → I.object (st.child p k) st.size)
  loaded : ∀ {st cache name}, I.holds st cache →
    I.loaded (st.child State.globalId (.ofModule name)) name st.size
  define : ∀ {st cache id name v}, I.holds st cache → I.home st id → I.value st v →
    I.holds (st.define id name v) cache
  assign : ∀ {st cache id name o v}, I.holds st cache → I.scope st id → I.value st v →
    st.resolve? id name = some o → I.holds (st.define o name v) cache
  bindModule : ∀ {st cache name id}, I.holds st cache → I.imports name → I.object st id →
    I.holds (st.define State.globalId name (.scope id)) cache
  keep : ∀ {st cache name id}, I.holds st cache → I.object st id → I.loaded st name id →
    I.holds st (cache.put name id)

variable {I : Invariant} {c : Settings}

theorem Kept.value_mono (K : I.Kept c) {st st' : Store} {v : Value} (extends_ : st.Extends st')
    (hv : I.value st v) : I.value st' v := by
  cases v with
  | scope id => exact K.object_mono extends_ hv
  | closure f => exact ⟨K.scope_mono extends_ hv.1, hv.2⟩
  | _ => trivial

theorem Kept.lawful (K : I.Kept c) (ahead : Option RuntimeError → Prop) :
    (I.comparison ahead).Lawful c c where
  memoize := rfl
  moduleForm _ := rfl
  moduleCode _ := K.moduleCode
  limit_le := Nat.le_refl _
  limit _ _ hk := .inl ⟨hk, trivial⟩
  error _ := trivial
  grow_refl s := .refl s.store
  grow_trans := .trans
  scope_mono := K.scope_mono
  home_mono := K.home_mono
  home_scope := K.home_scope
  loaded_mono := K.loaded_mono
  value_mono := K.value_mono
  enter_mono _ _ := trivial
  parts := K.parts
  block _ _ _ := trivial
  constructorName := trivial
  plain := by
    intro st v hv
    cases v <;> trivial
  closure := ⟨fun h => ⟨h.1, h.2, fun _ _ => trivial⟩, fun h => ⟨h.1, h.2.1⟩⟩
  object := K.object_home
  alike := by
    rintro s _ ⟨rfl, -⟩
    exact .refl s
  global h := K.global h.2
  lookup := by
    rintro s _ id name ⟨rfl, -⟩ _ _
    rfl
  found h hid _ hv := K.found h.2 hid hv
  resolve := by
    rintro s _ id name ⟨rfl, -⟩ _ _
    rfl
  superclass he hf h hid isClass hp := K.superclass he hf h.2 hid isClass hp
  cached h hid := K.cached h.2 hid
  block_opens := K.block_opens
  call_opens := K.call_opens
  openScope := by
    rintro s _ p k ⟨rfl, h⟩ hp hk
    obtain ⟨h', opened⟩ := K.openScope h hp hk
    exact ⟨⟨rfl, h'⟩, .child .., opened⟩
  loaded h := K.loaded h.2
  define := by
    rintro s _ id name v ⟨rfl, h⟩ hid _ hv
    exact ⟨⟨rfl, K.define h hid hv⟩, .define ..⟩
  assign := by
    rintro s _ id name o v ⟨rfl, h⟩ hid _ hv ho
    exact ⟨⟨rfl, K.assign h hid hv ho⟩, .define ..⟩
  bindModule := by
    rintro s _ name id ⟨rfl, h⟩ _ himports hid
    exact ⟨⟨rfl, K.bindModule h himports hid⟩, .define ..⟩
  serial := by
    rintro s _ ⟨rfl, h⟩
    exact ⟨⟨rfl, h⟩, .refl _⟩
  print := by
    rintro s _ line ⟨rfl, h⟩
    exact ⟨⟨rfl, h⟩, .refl _⟩
  call := by
    rintro s _ ⟨rfl, h⟩ _
    exact ⟨rfl, h⟩
  call_enter _ _ _ := trivial
  call_back := by
    rintro s _ s' _ ⟨rfl, -⟩ ⟨rfl, h'⟩ grows
    exact ⟨⟨rfl, h'⟩, grows.grow⟩
  load := by
    rintro s _ name ⟨rfl, h⟩ _ _ _
    exact ⟨rfl, h⟩
  load_enter _ _ _ := trivial
  load_back := by
    rintro s _ s' _ name ⟨rfl, -⟩ ⟨rfl, h'⟩ grows
    exact ⟨⟨rfl, h'⟩, grows.grow⟩
  keep := by
    rintro s _ s' _ name id ⟨rfl, -⟩ _ _ _ _ ⟨rfl, h'⟩ grows hid hloaded
    exact ⟨⟨rfl, K.keep h' hid hloaded⟩, grows.grow⟩

end Invariant

end ScopeLisp
