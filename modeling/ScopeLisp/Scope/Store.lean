/-
ScopeLisp.Scope.Store — scopes, their chains, and the look-up of names.

Every scope but the first has a parent that was there before it
(`Store.parent_lt`), so a chain of parents always ends. Blocks, calls, classes,
instances and modules are all scopes: a class holds its methods and has its
superclass as parent, an instance holds its fields and has its class as
parent, so that looking up a property falls through to inherited methods.
-/
import ScopeLisp.Scope.Bindings
import ScopeLisp.Scope.Value

namespace ScopeLisp

/-- What a scope is there for. -/
inductive ScopeKind
  | global
  | block
  | activation
  | ofClass (name : String)
  | ofInstance
  | ofModule (name : String)
deriving DecidableEq

structure Scope where
  kind : ScopeKind
  parent : Option ScopeId
  record : Bindings Value

/-- All scopes, in the order in which they were opened. -/
structure Store where
  scopes : Array Scope
  parent_lt : ∀ (i : Nat) (s : Scope), scopes[i]? = some s → ∀ p, s.parent = some p → p < i

namespace Store

/-- A store without scopes. -/
def empty : Store := ⟨#[], by simp⟩

/-- The scope with a given number. -/
def scope? (st : Store) (id : ScopeId) : Option Scope := st.scopes[id]?

/-- How many scopes there are; also the number of the next one. -/
def size (st : Store) : Nat := st.scopes.size

/-- Opens a scope with the given parent, which must be there already. -/
def push (st : Store) (kind : ScopeKind) (parent : Option ScopeId)
    (h : ∀ p, parent = some p → p < st.size) : Store where
  scopes := st.scopes.push ⟨kind, parent, .empty⟩
  parent_lt i s hs p hp := by
    rw [Array.getElem?_push] at hs
    split at hs
    · next hi =>
      obtain rfl : ⟨kind, parent, .empty⟩ = s := by simpa using hs
      exact hi ▸ h p hp
    · exact st.parent_lt i s hs p hp

/-- A store with one scope, which has no parent. -/
def root (kind : ScopeKind) : Store := empty.push kind none (by simp)

/-- The number of the scope that every chain ends in. -/
def rootId : ScopeId := 0

/-- Opens an empty scope inside another one. -/
def child (st : Store) (parent : ScopeId) (kind : ScopeKind) : Store :=
  if h : parent < st.size then
    st.push kind (some parent) (by simpa using h)
  else st.push kind none (by simp)

/-- Changes the record of one scope. -/
def modifyRecord (st : Store) (id : ScopeId) (f : Bindings Value → Bindings Value) : Store where
  scopes := st.scopes.modify id fun s => { s with record := f s.record }
  parent_lt i s hs p hp := by
    rw [Array.getElem?_modify] at hs
    split at hs
    · obtain ⟨t, ht, rfl⟩ := Option.map_eq_some_iff.1 hs
      exact st.parent_lt i t ht p hp
    · exact st.parent_lt i s hs p hp

/-! ## Reading scopes -/

/-- The kind of a scope. -/
def kind? (st : Store) (id : ScopeId) : Option ScopeKind := (st.scope? id).map Scope.kind

/-- The scope that encloses a scope. -/
def parent? (st : Store) (id : ScopeId) : Option ScopeId := (st.scope? id).bind Scope.parent

/-- The bindings of a scope itself. -/
def record (st : Store) (id : ScopeId) : Bindings Value :=
  ((st.scope? id).map Scope.record).getD .empty

/-- Whether a scope has a binding of its own for a name. -/
def hasOwn (st : Store) (id : ScopeId) (name : String) : Bool := (st.record id).has name

theorem scope?_eq_none {st : Store} {id : ScopeId} (h : st.size ≤ id) : st.scope? id = none :=
  Array.getElem?_eq_none h

theorem lt_size_of_scope? {st : Store} {id : ScopeId} {s : Scope} (h : st.scope? id = some s) :
    id < st.size := by
  refine Nat.lt_of_not_le fun out => ?_
  rw [scope?_eq_none out] at h
  cases h

theorem lt_size_of_kind? {st : Store} {id : ScopeId} {k : ScopeKind} (h : st.kind? id = some k) :
    id < st.size := by
  obtain ⟨s, hs, -⟩ := Option.map_eq_some_iff.1 h
  exact lt_size_of_scope? hs

theorem lt_size_of_parent? {st : Store} {id p : ScopeId} (h : st.parent? id = some p) :
    id < st.size := by
  obtain ⟨s, hs, -⟩ := Option.bind_eq_some_iff.1 h
  exact lt_size_of_scope? hs

/-- Only scopes that are there have names. -/
theorem lt_size_of_get? {st : Store} {id : ScopeId} {name : String} {v : Value}
    (h : (st.record id).get? name = some v) : id < st.size := by
  cases hs : st.scope? id with
  | none => simp [record, hs, Bindings.get?, Bindings.empty] at h
  | some s => exact lt_size_of_scope? hs

/-! ## Chains -/

theorem lt_of_parent? {st : Store} {id p : ScopeId} (h : st.parent? id = some p) : p < id := by
  obtain ⟨s, hs, hp⟩ := Option.bind_eq_some_iff.1 h
  exact st.parent_lt id s hs p hp

/-- The scope that encloses a scope, known to be older. -/
def enclosing? (st : Store) (id : ScopeId) : Option {p : ScopeId // p < id} :=
  (st.parent? id).attach.map fun p => ⟨p.1, lt_of_parent? p.2⟩

/-- A scope and its enclosing scopes, innermost first. -/
def chain (st : Store) (id : ScopeId) : List ScopeId :=
  match st.enclosing? id with
  | none => [id]
  | some ⟨p, _⟩ => id :: st.chain p
termination_by id

/-- The nearest scope of the chain that has a binding for a name. -/
def resolve? (st : Store) (id : ScopeId) (name : String) : Option ScopeId :=
  if st.hasOwn id name then some id
  else match st.enclosing? id with
    | none => none
    | some ⟨p, _⟩ => st.resolve? p name
termination_by id

/-- The value of a name in the nearest scope of the chain that has it. -/
def lookup? (st : Store) (id : ScopeId) (name : String) : Option Value :=
  match (st.record id).get? name with
  | some value => some value
  | none =>
    match st.enclosing? id with
    | none => none
    | some ⟨p, _⟩ => st.lookup? p name
termination_by id

/-! A step of a walk along a chain, told through `parent?`. -/

theorem map_val_enclosing? (st : Store) (id : ScopeId) :
    (st.enclosing? id).map Subtype.val = st.parent? id := by
  simp [enclosing?, Option.map_map, Function.comp_def]

theorem resolve?_eq (st : Store) (id : ScopeId) (name : String) :
    st.resolve? id name =
      if st.hasOwn id name then some id else (st.parent? id).bind (st.resolve? · name) := by
  rw [resolve?, ← map_val_enclosing?]
  cases st.enclosing? id <;> rfl

theorem lookup?_eq (st : Store) (id : ScopeId) (name : String) :
    st.lookup? id name =
      match (st.record id).get? name with
      | some value => some value
      | none => (st.parent? id).bind (st.lookup? · name) := by
  rw [lookup?, ← map_val_enclosing?]
  cases st.enclosing? id <;> rfl

theorem chain_eq (st : Store) (id : ScopeId) :
    st.chain id = id :: ((st.parent? id).map st.chain).getD [] := by
  rw [chain, ← map_val_enclosing?]
  cases st.enclosing? id <;> rfl

/-- What holds of a scope, and of the parent of every scope that it holds of,
holds along the chain. -/
theorem forall_mem_chain {st : Store} {P : ScopeId → Prop} {id : ScopeId} (h : P id)
    (parent : ∀ a p, P a → st.parent? a = some p → P p) : ∀ o ∈ st.chain id, P o := by
  induction id using Nat.strongRecOn with
  | ind id ih =>
    intro o ho
    rw [chain_eq, List.mem_cons] at ho
    rcases ho with rfl | ho
    · exact h
    · cases hp : st.parent? id with
      | none => simp [hp] at ho
      | some p => exact ih p (lt_of_parent? hp) (parent id p h hp) o (by simpa [hp] using ho)

theorem mem_chain_of_parent? {st : Store} {id p o : ScopeId} (hp : st.parent? id = some p)
    (ho : o ∈ st.chain p) : o ∈ st.chain id := by
  rw [chain_eq, hp]
  exact List.mem_cons_of_mem _ ho

/-- What a name stands for is bound in a scope of the chain. -/
theorem exists_mem_chain_of_lookup? {st : Store} {id : ScopeId} {name : String} {v : Value}
    (h : st.lookup? id name = some v) :
    ∃ owner ∈ st.chain id, (st.record owner).get? name = some v := by
  induction id using Nat.strongRecOn with
  | ind id ih =>
    rw [lookup?_eq] at h
    split at h
    · next value hv =>
      cases h
      exact ⟨id, by simp [chain_eq], hv⟩
    · obtain ⟨p, hp, h⟩ := Option.bind_eq_some_iff.1 h
      obtain ⟨owner, howner, hv⟩ := ih p (lt_of_parent? hp) h
      exact ⟨owner, mem_chain_of_parent? hp howner, hv⟩

/-- A name is bound where it is resolved. -/
theorem mem_chain_of_resolve? {st : Store} {id owner : ScopeId} {name : String}
    (h : st.resolve? id name = some owner) :
    owner ∈ st.chain id ∧ name ∈ (st.record owner).names := by
  induction id using Nat.strongRecOn with
  | ind id ih =>
    rw [resolve?_eq] at h
    split at h
    · next own =>
      cases h
      exact ⟨by simp [chain_eq],
        Bindings.mem_names_iff.2 (Option.isSome_iff_exists.1 own)⟩
    · obtain ⟨p, hp, h⟩ := Option.bind_eq_some_iff.1 h
      obtain ⟨howner, hname⟩ := ih p (lt_of_parent? hp) h
      exact ⟨mem_chain_of_parent? hp howner, hname⟩

/-! ## Writing -/

/-- Gives a name a value in the record of the scope itself. -/
def define (st : Store) (id : ScopeId) (name : String) (value : Value) : Store :=
  st.modifyRecord id (·.put name value)

/-- Gives a name a new value where it is bound; a name that is bound nowhere in
the chain is not declared. -/
def assign? (st : Store) (id : ScopeId) (name : String) (value : Value) : Option Store :=
  (st.resolve? id name).map fun owner => st.define owner name value

/-! ## What opening and writing do

Both are told through `scope?`: opening a scope adds one at the end, and
writing changes the record of one scope and nothing else. -/

theorem scope?_push (st : Store) (kind : ScopeKind) (parent : Option ScopeId)
    (h : ∀ p, parent = some p → p < st.size) (id : ScopeId) :
    (st.push kind parent h).scope? id =
      if id = st.size then some ⟨kind, parent, .empty⟩ else st.scope? id := by
  simp only [scope?, push, Array.getElem?_push]
  rfl

theorem size_push (st : Store) (kind : ScopeKind) (parent : Option ScopeId)
    (h : ∀ p, parent = some p → p < st.size) : (st.push kind parent h).size = st.size + 1 := by
  simp [size, push]

theorem size_root (kind : ScopeKind) : (root kind).size = 1 := size_push ..

/-- A new scope is empty and inside its parent; all others are as before. -/
theorem scope?_child {st : Store} {parent : ScopeId} (h : parent < st.size)
    (kind : ScopeKind) (id : ScopeId) :
    (st.child parent kind).scope? id =
      if id = st.size then some ⟨kind, some parent, .empty⟩ else st.scope? id := by
  rw [child, dif_pos h, scope?_push]

/-- The scopes that are there stay as they are. -/
theorem scope?_child_of_lt {st : Store} {id : ScopeId} (h : id < st.size) (parent : ScopeId)
    (kind : ScopeKind) : (st.child parent kind).scope? id = st.scope? id := by
  unfold child
  split <;> rw [scope?_push, if_neg (Nat.ne_of_lt h)]

theorem size_child (st : Store) (parent : ScopeId) (kind : ScopeKind) :
    (st.child parent kind).size = st.size + 1 := by
  unfold child
  split <;> exact size_push ..

/-- Defining a name changes the record of that scope and nothing else. -/
theorem scope?_define (st : Store) (id : ScopeId) (name : String) (value : Value)
    (other : ScopeId) :
    (st.define id name value).scope? other =
      if id = other then
        (st.scope? other).map fun s => { s with record := s.record.put name value }
      else st.scope? other := by
  simp [scope?, define, modifyRecord, Array.getElem?_modify]

theorem size_define (st : Store) (id : ScopeId) (name : String) (value : Value) :
    (st.define id name value).size = st.size := by
  simp [size, define, modifyRecord]

theorem kind?_child (st : Store) (parent : ScopeId) (kind : ScopeKind) (id : ScopeId) :
    (st.child parent kind).kind? id = if id = st.size then some kind else st.kind? id := by
  unfold kind? child
  split <;> rw [scope?_push] <;> split <;> rfl

/-- A new scope is inside its parent, if that is there. -/
theorem parent?_child (st : Store) (parent : ScopeId) (kind : ScopeKind) (id : ScopeId) :
    (st.child parent kind).parent? id =
      if id = st.size then (if parent < st.size then some parent else none)
      else st.parent? id := by
  unfold parent? child
  split <;> rw [scope?_push] <;> split <;> rfl

theorem kind?_size (st : Store) : st.kind? st.size = none := by
  simp [kind?, scope?, size]

/-- Opening a scope leaves all records as they are: that of the new scope has
nothing in it. -/
theorem record_child (st : Store) (parent : ScopeId) (kind : ScopeKind) (id : ScopeId) :
    (st.child parent kind).record id = st.record id := by
  have new : st.record st.size = .empty := by simp [record, scope?, size]
  unfold record child
  split <;> rw [scope?_push] <;> split
  all_goals first
    | rfl
    | next h => exact (h ▸ new).symm

theorem record_root (kind : ScopeKind) (id : ScopeId) : (root kind).record id = .empty := by
  unfold record root
  rw [scope?_push]
  split <;> rfl

theorem kind?_define (st : Store) (id : ScopeId) (name : String) (value : Value)
    (other : ScopeId) : (st.define id name value).kind? other = st.kind? other := by
  unfold kind?
  rw [scope?_define]
  split
  · cases st.scope? other <;> rfl
  · rfl

theorem parent?_define (st : Store) (id : ScopeId) (name : String) (value : Value)
    (other : ScopeId) : (st.define id name value).parent? other = st.parent? other := by
  unfold parent?
  rw [scope?_define]
  split
  · cases st.scope? other <;> rfl
  · rfl

/-- Defining a name in a scope that is there puts it into its record. -/
theorem record_define (st : Store) (id : ScopeId) (name : String) (value : Value)
    (other : ScopeId) :
    (st.define id name value).record other =
      if other = id ∧ id < st.size then (st.record other).put name value
      else st.record other := by
  unfold record
  rw [scope?_define]
  by_cases hid : id = other
  · subst hid
    by_cases hlt : id < st.size
    · have hs : st.scope? id = some st.scopes[id] := Array.getElem?_eq_getElem hlt
      simp [hs, hlt]
    · have hs : st.scope? id = none := scope?_eq_none (Nat.le_of_not_lt hlt)
      simp [hs, hlt]
  · simp [hid, Ne.symm hid]

/-- Defining a name changes what that name means in that scope. -/
theorem get?_record_define (st : Store) (id : ScopeId) (name : String) (value : Value)
    (other : ScopeId) (n : String) :
    ((st.define id name value).record other).get? n =
      if other = id ∧ id < st.size ∧ n = name then some value
      else (st.record other).get? n := by
  rw [record_define]
  by_cases h : other = id ∧ id < st.size
  · simp [h, Bindings.get?_put]
  · rw [if_neg h, if_neg fun h' => h ⟨h'.1, h'.2.1⟩]

/-! ## Bound values -/

/-- Every value that a name stands for in some scope is as `P` says. -/
def AllBound (st : Store) (P : Value → Prop) : Prop :=
  ∀ id name v, (st.record id).get? name = some v → P v

namespace AllBound

variable {st : Store} {P Q : Value → Prop}

theorem imp (h : st.AllBound P) (hPQ : ∀ v, P v → Q v) : st.AllBound Q :=
  fun id name v hv => hPQ v (h id name v hv)

theorem root (kind : ScopeKind) (P : Value → Prop) : (Store.root kind).AllBound P := by
  intro id name v hv
  rw [record_root] at hv
  cases hv

theorem child (h : st.AllBound P) (parent : ScopeId) (kind : ScopeKind) :
    (st.child parent kind).AllBound P := by
  intro id name v hv
  rw [record_child] at hv
  exact h id name v hv

theorem define (h : st.AllBound P) {v : Value} (hv : P v) (id : ScopeId) (name : String) :
    (st.define id name v).AllBound P := by
  intro other n w hw
  rw [get?_record_define] at hw
  split at hw
  · cases hw
    exact hv
  · exact h other n w hw

theorem lookup? (h : st.AllBound P) {id : ScopeId} {name : String} {v : Value}
    (hv : st.lookup? id name = some v) : P v := by
  obtain ⟨owner, -, hv⟩ := exists_mem_chain_of_lookup? hv
  exact h owner name v hv

end AllBound

/-- All values that a program can come by in a store with kept modules are as `P`
says: those that names stand for, and the modules themselves. -/
structure AllHeld (st : Store) (kept : Bindings ScopeId) (P : Value → Prop) : Prop where
  bound : st.AllBound P
  kept : ∀ name id, kept.get? name = some id → P (.scope id)

namespace AllHeld

variable {st : Store} {kept : Bindings ScopeId} {P Q : Value → Prop}

theorem imp (h : st.AllHeld kept P) (hPQ : ∀ v, P v → Q v) : st.AllHeld kept Q where
  bound := h.bound.imp hPQ
  kept name id hid := hPQ _ (h.kept name id hid)

theorem root (kind : ScopeKind) (P : Value → Prop) : (Store.root kind).AllHeld .empty P :=
  ⟨.root kind P, fun _ _ h => nomatch h⟩

theorem child (h : st.AllHeld kept P) (parent : ScopeId) (kind : ScopeKind) :
    (st.child parent kind).AllHeld kept P :=
  ⟨h.bound.child parent kind, h.kept⟩

theorem define (h : st.AllHeld kept P) {v : Value} (hv : P v) (id : ScopeId) (name : String) :
    (st.define id name v).AllHeld kept P :=
  ⟨h.bound.define hv id name, h.kept⟩

theorem keep (h : st.AllHeld kept P) (name : String) {id : ScopeId} (hid : P (.scope id)) :
    st.AllHeld (kept.put name id) P :=
  ⟨h.bound, Bindings.forall_get?_put hid h.kept⟩

end AllHeld

/-! ## Extensions -/

/-- Scopes are opened and names are added; what is there keeps its place. -/
structure Extends (st st' : Store) : Prop where
  size_le : st.size ≤ st'.size
  kind : ∀ id < st.size, st'.kind? id = st.kind? id
  parent : ∀ id < st.size, st'.parent? id = st.parent? id
  names : ∀ id < st.size, (st.record id).names <+: (st'.record id).names

theorem Extends.refl (st : Store) : st.Extends st :=
  ⟨Nat.le_refl _, fun _ _ => rfl, fun _ _ => rfl, fun _ _ => List.prefix_rfl⟩

theorem Extends.trans {st₁ st₂ st₃ : Store} (h : st₁.Extends st₂) (h' : st₂.Extends st₃) :
    st₁.Extends st₃ where
  size_le := Nat.le_trans h.size_le h'.size_le
  kind id hid := (h'.kind id (Nat.lt_of_lt_of_le hid h.size_le)).trans (h.kind id hid)
  parent id hid := (h'.parent id (Nat.lt_of_lt_of_le hid h.size_le)).trans (h.parent id hid)
  names id hid := (h.names id hid).trans (h'.names id (Nat.lt_of_lt_of_le hid h.size_le))

/-- A scope goes on as it was, perhaps with more names. -/
theorem Extends.scope? {st st' : Store} (h : st.Extends st') {id : ScopeId} {s : Scope}
    (hs : st.scope? id = some s) :
    ∃ s', st'.scope? id = some s' ∧ s'.kind = s.kind ∧ s'.parent = s.parent ∧
      s.record.names <+: s'.record.names := by
  have old := lt_size_of_scope? hs
  have kind := h.kind id old
  have parent := h.parent id old
  have names := h.names id old
  cases hs' : st'.scope? id with
  | none => simp [kind?, hs, hs'] at kind
  | some s' =>
    simp only [kind?, parent?, record, hs, hs', Option.map_some, Option.bind_some,
      Option.getD_some] at kind parent names
    exact ⟨s', rfl, Option.some.inj kind, parent, names⟩

theorem Extends.child (st : Store) (parent : ScopeId) (kind : ScopeKind) :
    st.Extends (st.child parent kind) where
  size_le := by
    rw [size_child]
    exact Nat.le_succ _
  kind id hid := by rw [kind?_child, if_neg (Nat.ne_of_lt hid)]
  parent id hid := by rw [parent?_child, if_neg (Nat.ne_of_lt hid)]
  names id _ := by simp only [record_child, List.prefix_rfl]

theorem Extends.define (st : Store) (id : ScopeId) (name : String) (value : Value) :
    st.Extends (st.define id name value) where
  size_le := Nat.le_of_eq (size_define ..).symm
  kind _ _ := kind?_define ..
  parent _ _ := parent?_define ..
  names other _ := by
    rw [record_define]
    split
    · exact Bindings.names_prefix_put ..
    · exact List.prefix_rfl

/-! ## Classes -/

def isClass (st : Store) (id : ScopeId) : Bool :=
  match st.kind? id with
  | some (.ofClass _) => true
  | _ => false

theorem isClass_iff {st : Store} {id : ScopeId} :
    st.isClass id = true ↔ ∃ name, st.kind? id = some (.ofClass name) := by
  unfold isClass
  split
  · next name h => simp [h]
  · next h => simpa using h

theorem Extends.isClass {st st' : Store} (h : st.Extends st') {id : ScopeId} (hid : id < st.size) :
    st'.isClass id = st.isClass id := by
  simp only [Store.isClass, h.kind id hid]

/-- The name of the class that a scope is, or is an instance of. -/
def className? (st : Store) (id : ScopeId) : Option String :=
  match st.kind? id with
  | some (.ofClass name) => some name
  | some .ofInstance =>
    match st.enclosing? id with
    | none => none
    | some ⟨p, _⟩ => st.className? p
  | _ => none
termination_by id

theorem className?_eq (st : Store) (id : ScopeId) :
    st.className? id =
      match st.kind? id with
      | some (.ofClass name) => some name
      | some .ofInstance => (st.parent? id).bind st.className?
      | _ => none := by
  rw [className?, ← map_val_enclosing?]
  cases st.enclosing? id <;> rfl

end Store

end ScopeLisp
