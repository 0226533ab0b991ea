/-
ScopeLisp.Proofs.ImportGraph — importing follows the graph of imports.

Where the texts of modules are rows of imports, importing is a depth-first
search. The modules that are being imported are the path of the search from its
root; the modules that are kept are those it has finished, each after all that
it imports (`State.Tidy`). Every import settles (`ImportMap.settles`): it has a
value, and then neither a module of the path nor a cycle can be reached from its
module, or it ends with the path closed to a cycle.
-/
import ScopeLisp.Proofs.Bookkeeping
import Mathlib.Data.List.Chain
import Mathlib.Data.List.Nodup
import Mathlib.Data.List.Perm.Subperm
import Mathlib.Logic.Relation

namespace ScopeLisp

/-- `(import name)`. -/
def Expr.importOf (name : String) : Expr := .form Keyword.importDecl.name [.symbol name]

/-! ## Graphs of imports -/

/-- Modules in memory whose texts are rows of imports of one another. -/
structure ImportMap where
  modules : Bindings String
  /-- The modules that a module imports, in order. -/
  imports : String → List String
  reads : ∀ {name text}, modules.get? name = some text →
    Expr.ofProgram text = .ok (.block ((imports name).map .importOf))
  closed : ∀ {name n}, name ∈ modules.names → n ∈ imports name → n ∈ modules.names

namespace ImportMap

variable {g : ImportMap}

/-- One module imports another directly. -/
def Edge (g : ImportMap) (a b : String) : Prop := a ∈ g.modules.names ∧ b ∈ g.imports a

/-- One module is another, or imports it directly or through others. -/
def Reaches (g : ImportMap) : String → String → Prop := Relation.ReflTransGen g.Edge

/-- A module imports itself, directly or through others. -/
def Cyclic (g : ImportMap) (name : String) : Prop := Relation.TransGen g.Edge name name

/-- A walk along imports that comes back to where it has been, for the first
time at its end. -/
structure Lasso (g : ImportMap) (chain : List String) : Prop where
  steps : chain.IsChain g.Edge
  distinct : chain.dropLast.Nodup
  closes : ∃ last ∈ chain.dropLast, chain.getLast? = some last

/-- Neither a cycle nor any module of `path` can be reached. -/
def Clear (g : ImportMap) (path : List String) (name : String) : Prop :=
  ∀ n, g.Reaches name n → n ∉ path ∧ ¬ g.Cyclic n

/-- A module is clear of a path if what it imports is clear of the path with
the module itself. -/
theorem Clear.of_imports {path : List String} {name : String} (fresh : name ∉ path)
    (imports : ∀ n ∈ g.imports name, g.Clear (name :: path) n) : g.Clear path name := by
  -- What is reached through an import does not come back to the module.
  have through : ∀ {m n}, g.Edge name m → g.Reaches m n →
      n ≠ name ∧ n ∉ path ∧ ¬ g.Cyclic n := by
    intro m n edge reach
    obtain ⟨outside, acyclic⟩ := imports m edge.2 n reach
    exact ⟨fun h => outside (h ▸ List.mem_cons_self),
      fun h => outside (List.mem_cons_of_mem _ h), acyclic⟩
  intro n reach
  rcases reach.cases_head with rfl | ⟨m, edge, reach⟩
  · refine ⟨fresh, fun cycle => ?_⟩
    obtain ⟨m, edge, reach⟩ := Relation.TransGen.head'_iff.1 cycle
    exact (through edge reach).1 rfl
  · exact (through edge reach).2

/-- Every module comes after all that it imports. -/
def PostOrder (g : ImportMap) (names : List String) : Prop :=
  ∀ before name after, names = before ++ name :: after → ∀ n ∈ g.imports name, n ∈ before

theorem PostOrder.nil : g.PostOrder [] := by
  intro before name after split
  simp at split

/-- A module may come last when all that it imports is there. -/
theorem PostOrder.concat {names : List String} (h : g.PostOrder names) {name : String}
    (imports : ∀ n ∈ g.imports name, n ∈ names) : g.PostOrder (names ++ [name]) := by
  intro before n after split
  rcases List.eq_nil_or_concat after with rfl | ⟨after, last, rfl⟩
  · obtain ⟨rfl, last⟩ := List.append_inj' split rfl
    cases last
    exact imports
  · rw [List.concat_eq_append, ← List.cons_append, ← List.append_assoc] at split
    exact h before n after (List.append_inj_left' split rfl)

theorem PostOrder.mem {names : List String} (h : g.PostOrder names) {name n : String}
    (hname : name ∈ names) (hn : n ∈ g.imports name) : n ∈ names := by
  obtain ⟨before, after, split⟩ := List.append_of_mem hname
  exact split ▸ List.mem_append_left _ (h before name after split n hn)

theorem PostOrder.idxOf_lt {names : List String} (h : g.PostOrder names) (distinct : names.Nodup)
    {name n : String} (hname : name ∈ names) (hn : n ∈ g.imports name) :
    names.idxOf n < names.idxOf name := by
  obtain ⟨before, after, rfl⟩ := List.append_of_mem hname
  have earlier : n ∈ before := h before name after rfl n hn
  have later : name ∉ before := fun hmem =>
    (List.nodup_append.1 distinct).2.2 _ hmem _ List.mem_cons_self rfl
  rw [List.idxOf_append, if_pos earlier, List.idxOf_append, if_neg later, List.idxOf_cons_self,
    Nat.zero_add]
  exact List.idxOf_lt_length_of_mem earlier

/-- A walk from a module in such an order goes back in it. -/
theorem PostOrder.walk {names : List String} (h : g.PostOrder names) (distinct : names.Nodup)
    {a b : String} (ha : a ∈ names) (walk : Relation.TransGen g.Edge a b) :
    b ∈ names ∧ names.idxOf b < names.idxOf a := by
  induction walk with
  | single edge => exact ⟨h.mem ha edge.2, h.idxOf_lt distinct ha edge.2⟩
  | tail _ edge ih =>
    exact ⟨h.mem ih.1 edge.2, (h.idxOf_lt distinct ih.1 edge.2).trans ih.2⟩

/-- A lasso goes from its first module to a cycle. -/
theorem Lasso.exists_cyclic {chain : List String} (h : g.Lasso chain) {name : String}
    (starts : chain.head? = some name) : ∃ n, g.Reaches name n ∧ g.Cyclic n := by
  obtain ⟨last, hmem, hlast⟩ := h.closes
  obtain ⟨before, after, split⟩ := List.append_of_mem hmem
  -- The walk up to the first visit, and the way back to it.
  have walk : chain = before ++ last :: (after ++ [last]) := by
    rw [← List.dropLast_append_getLast? last hlast, split, List.append_assoc, List.cons_append]
  obtain ⟨there, back⟩ := List.isChain_split.1 (walk ▸ h.steps)
  refine ⟨last, ?_, ?_⟩
  · rw [walk] at starts
    cases before with
    | nil => exact Option.some.inj starts ▸ .refl
    | cons m rest =>
      cases starts
      exact List.relationReflTransGen_of_exists_isChain_cons _ there (by simp)
  · cases after with
    | nil => exact .single (List.isChain_cons_cons.1 back).1
    | cons m rest =>
      obtain ⟨edge, back⟩ := List.isChain_cons_cons.1 back
      refine Relation.TransGen.head'_iff.2 ⟨m, edge, ?_⟩
      exact List.relationReflTransGen_of_exists_isChain_cons _ back (by simp)

end ImportMap

/-! ## Imports in steps -/

namespace State

/-- The body of a module starts: its import is running, and its scope, which
will be the next one, is open. -/
def startModule (name : String) (s : State) : State :=
  (s.pushImport name).openScope globalId (.ofModule name)

/-- The body of a module has ended: the module is bound, its import is over,
and it is kept if modules are kept. -/
def finishModule (c : Settings) (name : String) (id : ScopeId) (s : State) : State :=
  let s := (s.define globalId name (.scope id)).popImport
  if c.memoize then s.keep name id else s

variable (c : Settings) (name : String) (id : ScopeId) (s : State)

theorem finishModule_store :
    (s.finishModule c name id).store = s.store.define globalId name (.scope id) := by
  unfold finishModule
  cases c.memoize <;> rfl

theorem finishModule_importing : (s.finishModule c name id).importing = s.importing.tail := by
  unfold finishModule
  cases c.memoize <;> rfl

theorem finishModule_cache :
    (s.finishModule c name id).cache = if c.memoize then s.cache.put name id else s.cache := by
  unfold finishModule
  cases c.memoize <;> rfl

theorem finishModule_kind? (k : ScopeId) :
    (s.finishModule c name id).store.kind? k = s.store.kind? k := by
  rw [finishModule_store, Store.kind?_define]

variable {c name id s}

theorem finishModule_names (unkept : s.cache.get? name = none) :
    (s.finishModule c name id).cache.names =
      if c.memoize then s.cache.names ++ [name] else s.cache.names := by
  rw [finishModule_cache]
  split
  · rw [Bindings.names_put, if_neg (Bindings.get?_eq_none_iff.1 unkept)]
  · rfl

/-- What is kept when a module has ended is the module itself or was kept
before. -/
theorem kept_of_finishModule (unkept : s.cache.get? name = none) {n : String} {k : ScopeId}
    (h : (s.finishModule c name id).cache.get? n = some k) :
    n = name ∧ k = id ∨ n ≠ name ∧ s.cache.get? n = some k := by
  have before : s.cache.get? n = some k → n ≠ name ∧ s.cache.get? n = some k := by
    intro old
    refine ⟨?_, old⟩
    rintro rfl
    cases unkept.symm.trans old
  rw [finishModule_cache] at h
  split at h
  · rw [Bindings.get?_put] at h
    split at h
    · next hn => exact .inl ⟨hn, (Option.some.inj h).symm⟩
    · exact .inr (before h)
  · exact .inr (before h)

end State

namespace Eval

/-- Imports a module that has this body: the body runs between the start of the module
and its end. -/
def load (c : Settings) (eval : Evaluator) (name : String) (program : Expr) : Eval Value :=
  fun s =>
    match body eval s.store.size program (s.startModule name) with
    | (.value _, s') => (.value (.scope s.store.size), s'.finishModule c name s.store.size)
    | (.error e, s') => (.error e, s'.popImport)
    | (.outOfFuel, s') => (.outOfFuel, s'.popImport)

theorem evaluate_importDecl {c : Settings} {e : Expr} {name : String}
    (he : Form.classify e = .ok (.importDecl name)) (fuel : Nat) (env : ScopeId) (s : State) :
    evaluate c (fuel + 1) e env s = importModule c (evaluate c fuel) name s := by
  rw [evaluate, step, he]
  rfl

/-- An import whose module is not kept, and that may start: the text of the module is read,
and then the module is loaded. -/
theorem evaluate_import {c : Settings} {e program : Expr} {name text : String}
    (he : Form.classify e = .ok (.importDecl name)) (htext : c.modules name = .ok text)
    (hprogram : Expr.ofProgram text = .ok program) {s : State}
    (hcached : cached? c name s = none) (hfree : importRefused? c name s = none) (fuel : Nat)
    (env : ScopeId) :
    evaluate c (fuel + 2) e env s = load c (evaluate c fuel) name program s := by
  have declared : evalModule c (evaluate c (fuel + 1)) name (s.pushImport name) =
      declareModule (evaluate c fuel) State.globalId name program (s.pushImport name) := by
    rw [evalModule, ask_bind, moduleForm_of_reads htext hprogram]
    rfl
  rw [evaluate_importDecl he, importModule_eq, hcached, hfree]
  simp only [Bind.bind, andThen, asImport_eq, declared, declareModule_eq, load]
  rw [show (s.pushImport name).store.size = s.store.size from rfl,
    show (s.pushImport name).openScope State.globalId (.ofModule name) = s.startModule name
      from rfl]
  rcases body (evaluate c fuel) s.store.size program (s.startModule name) with ⟨_ | _ | _, s'⟩
  · simp only [keepModule, update, State.finishModule]
    cases c.memoize <;> rfl
  · rfl
  · rfl

/-- If the text of the module is a row of imports, these are evaluated between the start
of the module and its end. -/
theorem evaluate_importOf {c : Settings} {g : ImportMap} (memory : c.modules = .ofMemory g.modules)
    {name : String} (mem : name ∈ g.modules.names) {s : State} (hcached : cached? c name s = none)
    (hfree : importRefused? c name s = none) (fuel : Nat) (env : ScopeId) :
    evaluate c (fuel + 2) (.importOf name) env s =
      match sequence (evaluate c fuel) s.store.size .undefined ((g.imports name).map .importOf)
        (s.startModule name) with
      | (.value _, s') => (.value (.scope s.store.size), s'.finishModule c name s.store.size)
      | (.error e, s') => (.error e, s'.popImport)
      | (.outOfFuel, s') => (.outOfFuel, s'.popImport) := by
  obtain ⟨text, htext⟩ := Bindings.mem_names_iff.1 mem
  have stored : c.modules name = .ok text := by
    simp only [memory, ModuleSource.ofMemory, htext]
  exact evaluate_import rfl stored (g.reads htext) hcached hfree fuel env

end Eval

/-! ## Tidy states -/

/-- Every module has been started once at most: its scope is the only one of its
kind, and it is being imported or kept. -/
structure State.Single (s : State) : Prop where
  once : ∀ {name id id'}, s.store.kind? id = some (.ofModule name) →
    s.store.kind? id' = some (.ofModule name) → id = id'
  owned : ∀ {name id}, s.store.kind? id = some (.ofModule name) →
    name ∈ s.importing ∨ name ∈ s.cache.names

/-- A state in the course of importing from a graph: the running imports are a
path, innermost first, and each of the modules that are kept came after all that
it imports and is bound to its scope. -/
structure State.Tidy (g : ImportMap) (c : Settings) (s : State) : Prop where
  orderly : s.Orderly c
  path : s.importing.IsChain fun a b => g.Edge b a
  known : ∀ name ∈ s.importing, name ∈ g.modules.names
  global : 0 < s.store.size
  distinct : s.cache.names.Nodup
  ordered : g.PostOrder s.cache.names
  bound : ∀ {name id}, s.cache.get? name = some id →
    s.store.kind? id = some (.ofModule name) ∧
      (s.store.record State.globalId).get? name = some (.scope id)
  single : c.memoize = true → s.Single

namespace State.Tidy

variable {g : ImportMap} {c : Settings} {s : State} {name : String}

theorem fresh (g : ImportMap) (c : Settings) (p : Prelude) : (State.fresh p).Tidy g c := by
  have noModule : ∀ id name, (State.fresh p).store.kind? id ≠ some (.ofModule name) :=
    fun _ _ h => nomatch (State.kind?_fresh.1 h).2
  exact {
    orderly := .fresh c p
    path := .nil
    known := fun _ h => absurd h List.not_mem_nil
    global := (State.size_fresh p).symm ▸ Nat.one_pos
    distinct := List.nodup_nil
    ordered := .nil
    bound := by
      intro name id h
      cases h
    single := fun _ =>
      ⟨fun h => absurd h (noModule _ _), fun h => absurd h (noModule _ _)⟩ }

/-- A module that is kept is clear of the running imports. -/
theorem clear_of_kept (h : s.Tidy g c) (hname : name ∈ s.cache.names) :
    g.Clear s.importing name := by
  intro n reach
  have kept : n ∈ s.cache.names := by
    rcases Relation.reflTransGen_iff_eq_or_transGen.1 reach with rfl | walk
    · exact hname
    · exact (h.ordered.walk h.distinct hname walk).1
  refine ⟨fun hn => ?_, fun cycle => (h.ordered.walk h.distinct kept cycle).2.false⟩
  exact Bindings.get?_eq_none_iff.1 (h.orderly.unkept n hn) kept

/-- Binding a kept module again. -/
theorem rebind (h : s.Tidy g c) {id : ScopeId} (hid : s.cache.get? name = some id) :
    (s.define State.globalId name (.scope id)).Tidy g c where
  orderly := h.orderly.frame rfl rfl rfl
  path := h.path
  known := h.known
  global := (Store.size_define ..).symm ▸ h.global
  distinct := h.distinct
  ordered := h.ordered
  bound := by
    intro n k hk
    obtain ⟨kind, value⟩ := h.bound hk
    refine ⟨(Store.kind?_define ..).trans kind, ?_⟩
    rw [State.define, Store.get?_record_define]
    split
    · next same =>
      rw [same.2.2] at hk
      cases hid.symm.trans hk
      rfl
    · exact value
  single hmemo := by
    constructor
    · intro n k k' hk hk'
      exact (h.single hmemo).once ((Store.kind?_define ..).symm.trans hk)
        ((Store.kind?_define ..).symm.trans hk')
    · intro n k hk
      exact (h.single hmemo).owned ((Store.kind?_define ..).symm.trans hk)

/-- The body of a module starts from a tidy state. -/
theorem start (h : s.Tidy g c) (hname : name ∈ g.modules.names)
    (enters : ∀ b ∈ s.importing.head?, g.Edge b name)
    (hcached : Eval.cached? c name s = none) (hfree : Eval.importRefused? c name s = none) :
    (s.startModule name).Tidy g c where
  orderly := (h.orderly.pushImport hcached hfree).frame rfl rfl rfl
  path := h.path.cons enters
  known := List.forall_mem_cons.2 ⟨hname, h.known⟩
  global := by
    rw [startModule, State.openScope, Store.size_child]
    exact Nat.succ_pos _
  distinct := h.distinct
  ordered := h.ordered
  bound := by
    intro n k hk
    obtain ⟨kind, value⟩ := h.bound hk
    refine ⟨?_, (congrArg (Bindings.get? · n) (Store.record_child ..)).trans value⟩
    have other : k ≠ s.store.size := by
      rintro rfl
      rw [Store.kind?_size] at kind
      cases kind
    exact (Store.kind?_child ..).trans ((if_neg other).trans kind)
  single hmemo := by
    have single := h.single hmemo
    -- No scope of the module is there yet.
    have none : ∀ {k}, s.store.kind? k ≠ some (.ofModule name) := by
      intro k hk
      rcases single.owned hk with running | kept
      · exact (State.Orderly.of_importRefused? hfree).1 running
      · exact Bindings.get?_eq_none_iff.1 (h.orderly.get?_eq_none_of_cached? hcached) kept
    have kinds : ∀ k, (s.startModule name).store.kind? k =
        if k = s.store.size then some (.ofModule name) else s.store.kind? k :=
      fun k => Store.kind?_child ..
    constructor
    · intro n k k' hk hk'
      rw [kinds] at hk hk'
      split at hk <;> split at hk'
      · next hsize hsize' => exact hsize.trans hsize'.symm
      · cases hk
        exact absurd hk' none
      · cases hk'
        exact absurd hk none
      · exact single.once hk hk'
    · intro n k hk
      rw [kinds] at hk
      split at hk
      · cases hk
        exact .inl List.mem_cons_self
      · exact (single.owned hk).imp_left (List.mem_cons_of_mem _)

/-- The body of a module ends in a tidy state. -/
theorem finish (h : s.Tidy g c) (hfree : Eval.importRefused? c name s = none) {s' : State}
    (h' : s'.Tidy g c) (importing : s'.importing = name :: s.importing) {id : ScopeId}
    (kind : s'.store.kind? id = some (.ofModule name))
    (imports : c.memoize = true → ∀ n ∈ g.imports name, n ∈ s'.cache.names) :
    (s'.finishModule c name id).Tidy g c := by
  have running : (s'.finishModule c name id).importing = s.importing := by
    rw [finishModule_importing, importing, List.tail_cons]
  have unkept : s'.cache.get? name = none :=
    h'.orderly.unkept name (importing ▸ List.mem_cons_self)
  have defined : (s'.define State.globalId name (.scope id)).Orderly c :=
    h'.orderly.frame rfl rfl rfl
  refine ⟨?orderly, running ▸ h.path, running ▸ h.known, ?global, ?distinct, ?ordered, ?bound,
    ?single⟩
  case orderly =>
    unfold finishModule
    split
    · next hmemo => exact h.orderly.keep hmemo hfree defined importing id
    · exact h.orderly.popImport defined importing
  case global =>
    rw [finishModule_store, Store.size_define]
    exact h'.global
  case distinct =>
    rw [finishModule_names unkept]
    split
    · refine List.nodup_append.2 ⟨h'.distinct, List.pairwise_singleton .., ?_⟩
      rintro a ha b hb rfl
      cases List.mem_singleton.1 hb
      exact Bindings.get?_eq_none_iff.1 unkept ha
    · exact h'.distinct
  case ordered =>
    rw [finishModule_names unkept]
    split
    · next hmemo => exact h'.ordered.concat (imports hmemo)
    · exact h'.ordered
  case bound =>
    intro n k hk
    rw [finishModule_kind?, finishModule_store, Store.get?_record_define]
    rcases kept_of_finishModule unkept hk with ⟨rfl, rfl⟩ | ⟨hn, hk⟩
    · exact ⟨kind, if_pos ⟨rfl, h'.global, rfl⟩⟩
    · obtain ⟨kind, value⟩ := h'.bound hk
      exact ⟨kind, (if_neg fun same => hn same.2.2).trans value⟩
  case single =>
    intro hmemo
    have single := h'.single hmemo
    constructor
    · intro n k k' hk hk'
      rw [finishModule_kind?] at hk hk'
      exact single.once hk hk'
    · intro n k hk
      rw [finishModule_kind?] at hk
      rw [running, finishModule_names unkept, if_pos hmemo, List.mem_append, List.mem_singleton]
      rcases single.owned hk with hn | hn
      · rw [importing] at hn
        rcases List.mem_cons.1 hn with rfl | hn
        · exact .inr (.inr rfl)
        · exact .inl hn
      · exact .inr (.inl hn)

end State.Tidy

/-! ## Imports as a search -/

namespace ImportMap

open Eval

variable {g : ImportMap} {c : Settings} {s s₁ s₂ : State} {name : String} {names : List String}

/-- What has been done when modules have been imported one after the other. -/
structure Done (g : ImportMap) (c : Settings) (names : List String) (s s' : State) : Prop where
  tidy : s'.Tidy g c
  importing : s'.importing = s.importing
  clear : ∀ n ∈ names, g.Clear s.importing n
  kinds : ∀ {id k}, s.store.kind? id = some k → s'.store.kind? id = some k
  kept : c.memoize = true → ∀ n ∈ names, n ∈ s'.cache.names
  keeps : ∀ {n}, n ∈ s.cache.names → n ∈ s'.cache.names
  reached : ∀ {n}, n ∈ s'.cache.names → n ∈ s.cache.names ∨ ∃ m ∈ names, g.Reaches m n

theorem Done.nil (h : s.Tidy g c) : g.Done c [] s s where
  tidy := h
  importing := rfl
  clear _ hn := absurd hn List.not_mem_nil
  kinds := id
  kept _ _ hn := absurd hn List.not_mem_nil
  keeps := id
  reached := .inl

theorem Done.cons (h : g.Done c [name] s s₁) (h' : g.Done c names s₁ s₂) :
    g.Done c (name :: names) s s₂ where
  tidy := h'.tidy
  importing := h'.importing.trans h.importing
  clear := List.forall_mem_cons.2
    ⟨h.clear name (List.mem_singleton_self _), h.importing ▸ h'.clear⟩
  kinds hk := h'.kinds (h.kinds hk)
  kept hmemo := List.forall_mem_cons.2
    ⟨h'.keeps (h.kept hmemo name (List.mem_singleton_self _)), h'.kept hmemo⟩
  keeps hn := h'.keeps (h.keeps hn)
  reached hn := by
    rcases h'.reached hn with hn | ⟨m, hm, reach⟩
    · rcases h.reached hn with hn | ⟨m, hm, reach⟩
      · exact .inl hn
      · cases List.mem_singleton.1 hm
        exact .inr ⟨_, List.mem_cons_self, reach⟩
    · exact .inr ⟨m, List.mem_cons_of_mem _ hm, reach⟩

/-- The import of a module that is kept. -/
theorem Done.of_kept (h : s.Tidy g c) {id : ScopeId} (hid : s.cache.get? name = some id) :
    g.Done c [name] s (s.define State.globalId name (.scope id)) := by
  have kept : name ∈ s.cache.names := Bindings.mem_names_iff.2 ⟨id, hid⟩
  refine ⟨h.rebind hid, rfl, ?_, fun hk => (Store.kind?_define ..).trans hk, ?_, fun hn => hn,
    .inl⟩
  · intro n hn
    cases List.mem_singleton.1 hn
    exact h.clear_of_kept kept
  · intro _ n hn
    cases List.mem_singleton.1 hn
    exact kept

/-- The import of a module is done when those in its body are. -/
theorem Done.of_imports (h : s.Tidy g c) (hname : name ∈ g.modules.names)
    (hfree : importRefused? c name s = none)
    (body : g.Done c (g.imports name) (s.startModule name) s₁) :
    g.Done c [name] s (s₁.finishModule c name s.store.size) := by
  have started : (s.startModule name).store.kind? s.store.size = some (.ofModule name) :=
    (Store.kind?_child ..).trans (if_pos rfl)
  have names : ∀ {n}, n ∈ (s₁.finishModule c name s.store.size).cache.names ↔
      c.memoize = true ∧ n = name ∨ n ∈ s₁.cache.names := by
    intro n
    rw [State.finishModule_cache]
    cases c.memoize <;> simp [Bindings.mem_names_put]
  have importing : s₁.importing = name :: s.importing := body.importing
  refine ⟨h.finish hfree body.tidy importing (body.kinds started) body.kept, ?importing, ?clear,
    ?kinds, ?kept, ?keeps, ?reached⟩
  case importing => rw [State.finishModule_importing, importing, List.tail_cons]
  case clear =>
    intro n hn
    cases List.mem_singleton.1 hn
    exact .of_imports (State.Orderly.of_importRefused? hfree).1 body.clear
  case kinds =>
    intro id k hk
    have other : id ≠ s.store.size := by
      rintro rfl
      rw [Store.kind?_size] at hk
      cases hk
    rw [State.finishModule_kind?]
    exact body.kinds ((Store.kind?_child ..).trans ((if_neg other).trans hk))
  case kept =>
    intro hmemo n hn
    cases List.mem_singleton.1 hn
    exact names.2 (.inl ⟨hmemo, rfl⟩)
  case keeps => exact fun hn => names.2 (.inr (body.keeps hn))
  case reached =>
    intro n hn
    rcases names.1 hn with ⟨-, rfl⟩ | hn
    · exact .inr ⟨n, List.mem_singleton_self _, .refl⟩
    · rcases body.reached hn with hn | ⟨m, hm, reach⟩
      · exact .inl hn
      · exact .inr ⟨name, List.mem_singleton_self _, .head ⟨hname, hm⟩ reach⟩

/-- The import of modules from a state: with enough fuel it is done, or it ends
with a lasso that goes on from `path`. -/
def Settles (g : ImportMap) (c : Settings) (names path : List String) (x : Nat → Eval Value)
    (s : State) : Prop :=
  (∃ v s', Ends x s (.value v) s' ∧ g.Done c names s s') ∨
    ∃ chain s', Ends x s (.error (.circularImport chain)) s' ∧ path <+: chain ∧ g.Lasso chain

/-- A row of imports settles if each of them does. -/
theorem settles_row {path : List String} {env : ScopeId}
    (each : ∀ n ∈ names, ∀ {s : State}, s.Tidy g c → s.importing = path →
      g.Settles c [n] (n :: path).reverse (fun fuel => evaluate c fuel (.importOf n) env) s)
    (h : s.Tidy g c) (importing : s.importing = path) (last : Value) :
    g.Settles c names path.reverse
      (fun fuel => sequence (evaluate c fuel) env last (names.map .importOf)) s := by
  induction names generalizing s last with
  | nil => exact .inl ⟨last, s, .of_forall fun _ => rfl, .nil h⟩
  | cons n names ih =>
    obtain ⟨first, each⟩ := List.forall_mem_cons.1 each
    rcases first h importing with ⟨v, s₁, ends, done⟩ | ⟨chain, s₁, ends, goesOn, lasso⟩
    · rcases ih each done.tidy (done.importing.trans importing) v with
        ⟨w, s₂, ends', done'⟩ | ⟨chain, s₂, ends', goesOn, lasso⟩
      · exact .inl ⟨w, s₂, ends.bind ends', done.cons done'⟩
      · exact .inr ⟨chain, s₂, ends.bind ends', goesOn, lasso⟩
    · refine .inr ⟨chain, s₁, ends.bind_error, ?_, lasso⟩
      rw [List.reverse_cons] at goesOn
      exact (List.prefix_append ..).trans goesOn

/-- There is room for the import of one more module. -/
theorem length_lt_of_tidy (h : s.Tidy g c) (hname : name ∈ g.modules.names)
    (fresh : name ∉ s.importing) : s.importing.length < g.modules.size := by
  have distinct : (name :: s.importing).Nodup := List.nodup_cons.2 ⟨fresh, h.orderly.nodup⟩
  have known : name :: s.importing ⊆ g.modules.names := List.forall_mem_cons.2 ⟨hname, h.known⟩
  have fits := (distinct.subperm known).length_le
  rwa [List.length_cons, Bindings.names, List.length_map] at fits

/-- The path, closed by an import of one of its modules. -/
theorem lasso_of_path (h : s.Tidy g c) (enters : ∀ b ∈ s.importing.head?, g.Edge b name)
    (hmem : name ∈ s.importing) : g.Lasso (name :: s.importing).reverse where
  steps := List.isChain_reverse.2 (h.path.cons enters)
  distinct := by
    rw [List.reverse_cons, List.dropLast_concat]
    exact List.nodup_reverse.2 h.orderly.nodup
  closes := by
    rw [List.reverse_cons, List.dropLast_concat, List.getLast?_concat]
    exact ⟨name, List.mem_reverse.2 hmem, rfl⟩

/-- Every import settles. -/
theorem settles (memory : c.modules = .ofMemory g.modules) (limit : g.modules.size ≤ c.maxCallDepth)
    {s : State} {name : String} (h : s.Tidy g c) (hname : name ∈ g.modules.names)
    (enters : ∀ b ∈ s.importing.head?, g.Edge b name) (env : ScopeId) :
    g.Settles c [name] (name :: s.importing).reverse
      (fun fuel => evaluate c fuel (.importOf name) env) s := by
  -- An import that starts no module.
  have atOnce : ∀ {r s'}, (∀ fuel, importModule c (evaluate c fuel) name s = (r, s')) →
      Ends (fun fuel => evaluate c fuel (.importOf name) env) s r s' :=
    fun same => Ends.of_succ (.of_forall same)
  cases hcached : cached? c name s with
  | some id =>
    have hid : s.cache.get? name = some id := by
      unfold cached? at hcached
      split at hcached
      · exact hcached
      · cases hcached
    refine .inl ⟨.scope id, _, atOnce fun fuel => ?_, .of_kept h hid⟩
    rw [importModule_eq, hcached]
    rfl
  | none =>
    by_cases hmem : name ∈ s.importing
    · -- The search comes back to its path.
      refine .inr ⟨_, s, atOnce fun fuel => ?_, List.prefix_rfl, lasso_of_path h enters hmem⟩
      rw [importModule_eq, hcached, importRefused?, if_pos (by simpa using hmem)]
    · have room := length_lt_of_tidy h hname hmem
      have hfree : importRefused? c name s = none := by
        rw [importRefused?, if_neg (by simpa using hmem), if_neg (by omega)]
      -- The imports in the body go on from a path that is longer by one.
      have each : ∀ n ∈ g.imports name, ∀ {s' : State}, s'.Tidy g c →
          s'.importing = name :: s.importing →
          g.Settles c [n] (n :: name :: s.importing).reverse
            (fun fuel => evaluate c fuel (.importOf n) s.store.size) s' := by
        intro n hn s' h' importing
        have deeper : g.modules.size - s'.importing.length <
            g.modules.size - s.importing.length := by
          rw [importing, List.length_cons]
          omega
        rw [← importing]
        refine settles memory limit h' (g.closed hname hn) ?_ s.store.size
        rw [importing]
        rintro b ⟨⟩
        exact ⟨hname, hn⟩
      have finishes := evaluate_importOf memory hname hcached hfree
      rcases settles_row each (h.start hname enters hcached hfree) rfl .undefined with
        ⟨v, s₁, ends, done⟩ | ⟨chain, s₁, ends, goesOn, lasso⟩
      · refine .inl ⟨.scope s.store.size, _, Ends.of_succ (Ends.of_succ ?_),
          .of_imports h hname hfree done⟩
        filter_upwards [ends] with fuel hn
        rw [finishes, hn]
      · refine .inr ⟨chain, s₁.popImport, Ends.of_succ (Ends.of_succ ?_), goesOn, lasso⟩
        filter_upwards [ends] with fuel hn
        rw [finishes, hn]
termination_by g.modules.size - s.importing.length

/-! ## Importing a module -/

/-- What the import of a module leaves where modules are kept: just the modules
that it reaches have been loaded. Every run of the body of a module opens a scope
of its own, so there was one run of each; the modules are kept in the order in
which their bodies ended. -/
structure Loaded (g : ImportMap) (root : String) (s : State) : Prop where
  kept : ∀ {n}, n ∈ s.cache.names ↔ g.Reaches root n
  once : ∀ {n}, g.Reaches root n → ∃! id, s.store.kind? id = some (.ofModule n)
  no_other : ∀ {n id}, s.store.kind? id = some (.ofModule n) → g.Reaches root n
  distinct : s.cache.names.Nodup
  ordered : g.PostOrder s.cache.names
  bound : ∀ {n}, g.Reaches root n → ∃ id, s.cache.get? n = some id ∧
    s.store.kind? id = some (.ofModule n) ∧
      (s.store.record State.globalId).get? n = some (.scope id)

theorem Done.loaded {p : Prelude} (h : g.Done c [name] (.fresh p) s)
    (hmemo : c.memoize = true) : g.Loaded name s := by
  have single := h.tidy.single hmemo
  have kept : ∀ {n}, n ∈ s.cache.names ↔ g.Reaches name n := by
    intro n
    constructor
    · intro hn
      rcases h.reached hn with hn | ⟨m, hm, reach⟩
      · cases hn
      · cases List.mem_singleton.1 hm
        exact reach
    · intro reach
      induction reach with
      | refl => exact h.kept hmemo name (List.mem_singleton_self _)
      | tail _ edge ih => exact h.tidy.ordered.mem ih edge.2
  have bound : ∀ {n}, g.Reaches name n → ∃ id, s.cache.get? n = some id ∧
      s.store.kind? id = some (.ofModule n) ∧
        (s.store.record State.globalId).get? n = some (.scope id) := by
    intro n reach
    obtain ⟨id, hid⟩ := Bindings.mem_names_iff.1 (kept.2 reach)
    exact ⟨id, hid, h.tidy.bound hid⟩
  refine ⟨kept, ?once, ?no_other, h.tidy.distinct, h.tidy.ordered, bound⟩
  case once =>
    intro n reach
    obtain ⟨id, -, kind, -⟩ := bound reach
    exact ⟨id, kind, fun id' kind' => single.once kind' kind⟩
  case no_other =>
    intro n id kind
    rcases single.owned kind with hn | hn
    · rw [h.importing] at hn
      cases hn
    · exact kept.1 hn

/-- **Importing follows the graph of imports.** In a new interpreter, the import
of a module has a value just if no cycle is reachable from it. Where modules are
kept, then just the reachable ones have been loaded, each once and after all that
it imports. If it has no value, the error gives a walk along imports that starts
with the module and ends where it comes back to itself. -/
theorem import_follows_graph (memory : c.modules = .ofMemory g.modules)
    (limit : g.modules.size ≤ c.maxCallDepth) (hname : name ∈ g.modules.names) {source : String}
    (reads : Expr.ofProgram source = .ok (.block [.importOf name])) (p : Prelude) :
    ∃ a i, (Interp.new c p).Answers (.run source) a i ∧
      ((∃ v, a = .value v) ↔ ∀ n, g.Reaches name n → ¬ g.Cyclic n) ∧
      ((∃ v, a = .value v) → c.memoize = true → g.Loaded name i.state) ∧
      ∀ e, a = .error e → ∃ chain, e = .raised (.circularImport chain) ∧
        chain.head? = some name ∧ g.Lasso chain := by
  have computes : ∀ fuel, (Request.run source).compute c (evaluate c fuel) =
      .ok (evaluate c fuel (.importOf name) State.globalId >>= fun v => pure v) := by
    intro fuel
    rw [Request.compute, reads]
    rfl
  rcases settles memory limit (.fresh g c p) hname (by rintro b ⟨⟩) State.globalId with
    ⟨v, s, ends, done⟩ | ⟨chain, s, ends, goesOn, lasso⟩
  · have clear := done.clear name (List.mem_singleton_self _)
    refine ⟨_, _, .of_ends computes (ends.bind (.of_forall fun _ => rfl)) (by simp), ?_, ?_, ?_⟩
    · exact ⟨fun _ n reach => (clear n reach).2, fun _ => ⟨v, rfl⟩⟩
    · exact fun _ hmemo => done.loaded hmemo
    · intro e h
      cases h
  · have starts : chain.head? = some name := by
      obtain ⟨rest, rfl⟩ := goesOn
      rfl
    refine ⟨_, _, .of_ends computes ends.bind_error (by simp), ?_, ?_, ?_⟩
    · constructor
      · rintro ⟨v, h⟩
        cases h
      · intro acyclic
        obtain ⟨n, reach, cyclic⟩ := lasso.exists_cyclic starts
        exact absurd cyclic (acyclic n reach)
    · rintro ⟨v, h⟩
      cases h
    · intro e h
      cases h
      exact ⟨chain, rfl, starts, lasso⟩

/-- Two modules share a third. -/
def diamond : ImportMap where
  modules := ⟨[("Top", "(import Left) (import Right)"), ("Left", "(import Base)"),
    ("Right", "(import Base)"), ("Base", "")]⟩
  imports name :=
    if name = "Top" then ["Left", "Right"]
    else if name = "Left" ∨ name = "Right" then ["Base"]
    else []
  reads h := by
    have entry := Bindings.mem_entries_of_get? h
    simp only [List.mem_cons, Prod.mk.injEq, List.not_mem_nil, or_false] at entry
    rcases entry with ⟨rfl, rfl⟩ | ⟨rfl, rfl⟩ | ⟨rfl, rfl⟩ | ⟨rfl, rfl⟩ <;> with_unfolding_all rfl
  closed {name n} hname hn := by
    have all : ∀ name ∈ ["Top", "Left", "Right", "Base"],
        ∀ n ∈ (if name = "Top" then ["Left", "Right"]
          else if name = "Left" ∨ name = "Right" then ["Base"]
          else []),
          n ∈ ["Top", "Left", "Right", "Base"] := by decide
    exact all name hname n hn

theorem import_follows_graph_diamond :
    let c : Settings := ⟨4, true, .ofMemory diamond.modules⟩
    Expr.ofProgram "(import Top)" = .ok (.block [.importOf "Top"]) ∧
      diamond.modules.size ≤ c.maxCallDepth ∧ "Top" ∈ diamond.modules.names ∧
      ∃ a i, (Interp.new c .standard).Answers (.run "(import Top)") a i ∧
        ((∃ v, a = .value v) ↔ ∀ n, diamond.Reaches "Top" n → ¬ diamond.Cyclic n) ∧
        ((∃ v, a = .value v) → diamond.Loaded "Top" i.state) ∧
        ∀ e, a = .error e → ∃ chain, e = .raised (.circularImport chain) ∧
          chain.head? = some "Top" ∧ diamond.Lasso chain := by
  intro c
  have reads : Expr.ofProgram "(import Top)" = .ok (.block [.importOf "Top"]) := by
    with_unfolding_all rfl
  have mem : "Top" ∈ diamond.modules.names := by decide
  obtain ⟨a, i, answers, value, loaded, error⟩ :=
    import_follows_graph (c := c) rfl (Nat.le_refl 4) mem reads .standard
  exact ⟨reads, Nat.le_refl 4, mem, a, i, answers, value, fun h => loaded h rfl, error⟩

end ImportMap

end ScopeLisp
