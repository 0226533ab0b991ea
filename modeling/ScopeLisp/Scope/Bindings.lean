/-
ScopeLisp.Scope.Bindings — names with what they stand for, in the order in
which they were first put.
-/

namespace ScopeLisp

/-- Names in the order of their first appearance, each with its latest
meaning. -/
structure Bindings (α : Type) where
  entries : List (String × α)

namespace Bindings

variable {α : Type}

def empty : Bindings α := ⟨[]⟩

/-- What a name stands for. -/
def get? (b : Bindings α) (name : String) : Option α := b.entries.lookup name

/-- Whether a name is there. -/
def has (b : Bindings α) (name : String) : Bool := (b.get? name).isSome

/-- The names, in order. -/
def names (b : Bindings α) : List String := b.entries.map Prod.fst

/-- How many names there are. -/
def size (b : Bindings α) : Nat := b.entries.length

/-- Replaces the meaning of a name where it stands; a new name comes last. -/
def putEntry (name : String) (a : α) : List (String × α) → List (String × α)
  | [] => [(name, a)]
  | (n, old) :: rest => if n = name then (n, a) :: rest else (n, old) :: putEntry name a rest

/-- Gives a name a meaning. -/
def put (b : Bindings α) (name : String) (a : α) : Bindings α := ⟨putEntry name a b.entries⟩

/-- Puts entries one after the other. -/
def ofList (entries : List (String × α)) : Bindings α :=
  entries.foldl (fun b e => b.put e.1 e.2) empty

/-! ## What putting does -/

theorem lookup_putEntry (name m : String) (a : α) (es : List (String × α)) :
    (putEntry name a es).lookup m = if m = name then some a else es.lookup m := by
  induction es with
  | nil =>
    by_cases h : m = name
    · simp [putEntry, h]
    · have hb : (m == name) = false := by simpa using h
      simp [putEntry, List.lookup_cons, hb, h]
  | cons e es ih =>
    obtain ⟨n, old⟩ := e
    by_cases hn : n = name
    · subst hn
      by_cases h : m = n
      · simp [putEntry, h]
      · have hb : (m == n) = false := by simpa using h
        simp [putEntry, List.lookup_cons, hb, h]
    · by_cases h : m = n
      · subst h
        simp [putEntry, hn]
      · have hb : (m == n) = false := by simpa using h
        simp [putEntry, List.lookup_cons, hn, hb, ih]

/-- A put name has its new meaning, every other name the one it had. -/
theorem get?_put (b : Bindings α) (name m : String) (a : α) :
    (b.put name a).get? m = if m = name then some a else b.get? m :=
  lookup_putEntry name m a b.entries

theorem putEntry_append (xs ys : List (String × α)) (m : String) (v : α) :
    putEntry m v (xs ++ ys) =
      if m ∈ xs.map Prod.fst then putEntry m v xs ++ ys else xs ++ putEntry m v ys := by
  induction xs with
  | nil => simp
  | cons e xs ih =>
    obtain ⟨k, x⟩ := e
    by_cases h : k = m
    · simp [putEntry, h]
    · have h' : ¬ m = k := fun e => h e.symm
      simp only [List.cons_append, putEntry, if_neg h, ih, List.map_cons, List.mem_cons, h',
        false_or]
      split <;> rfl

/-- What holds of all names and their meanings, and of the name that is put, holds of
all of them then. -/
theorem forall_get?_put {P : String → α → Prop} {b : Bindings α} {name : String} {a : α}
    (put : P name a) (h : ∀ m a', b.get? m = some a' → P m a') :
    ∀ m a', (b.put name a).get? m = some a' → P m a' := by
  intro m a' hm
  rw [get?_put] at hm
  split at hm
  · next same =>
    cases hm
    exact same ▸ put
  · exact h m a' hm

theorem mem_names_iff {b : Bindings α} {name : String} :
    name ∈ b.names ↔ ∃ a, b.get? name = some a := by
  obtain ⟨es⟩ := b
  induction es with
  | nil => simp [names, get?]
  | cons e es ih =>
    obtain ⟨n, a⟩ := e
    simp only [names, get?, List.map_cons, List.mem_cons, List.lookup_cons] at ih ⊢
    by_cases h : name = n
    · simp [h]
    · have hb : (name == n) = false := by simpa using h
      simp only [h, hb, false_or, ih]

theorem mem_entries_of_get? {b : Bindings α} {name : String} {a : α} (h : b.get? name = some a) :
    (name, a) ∈ b.entries := by
  obtain ⟨before, after, split, -⟩ := List.lookup_eq_some_iff.1 h
  exact split ▸ List.mem_append_right _ List.mem_cons_self

/-- What holds of all entries, and of the one that is put, holds of all entries then. -/
theorem forall_mem_entries_put {P : String × α → Prop} {b : Bindings α} {name : String} {a : α}
    (put : P (name, a)) (h : ∀ e ∈ b.entries, P e) : ∀ e ∈ (b.put name a).entries, P e := by
  obtain ⟨es⟩ := b
  simp only [Bindings.put] at h ⊢
  induction es with
  | nil => simpa [putEntry] using put
  | cons e es ih =>
    obtain ⟨n, old⟩ := e
    rw [List.forall_mem_cons] at h
    by_cases hn : n = name
    · simpa [putEntry, hn] using And.intro put h.2
    · simpa [putEntry, hn] using And.intro h.1 (ih h.2)

theorem get?_eq_none_iff {b : Bindings α} {name : String} :
    b.get? name = none ↔ name ∉ b.names := by
  rw [mem_names_iff, ← Option.isSome_iff_exists, Option.not_isSome_iff_eq_none]

/-- Putting keeps all names in their order and adds at most one at the end. -/
theorem names_put (b : Bindings α) (name : String) (a : α) :
    (b.put name a).names = if name ∈ b.names then b.names else b.names ++ [name] := by
  obtain ⟨es⟩ := b
  simp only [put, names]
  induction es with
  | nil => simp [putEntry]
  | cons e es ih =>
    obtain ⟨n, old⟩ := e
    by_cases hn : n = name
    · simp [putEntry, hn]
    · have hn' : ¬ name = n := fun h => hn h.symm
      by_cases hm : name ∈ es.map Prod.fst
      · simp only [hm, if_true] at ih
        simp [putEntry, hn, hm, ih]
      · simp only [hm, if_false] at ih
        simp [putEntry, hn, hn', hm, ih]

theorem names_prefix_put (b : Bindings α) (name : String) (a : α) :
    b.names <+: (b.put name a).names := by
  rw [names_put]
  split
  · exact List.prefix_rfl
  · exact List.prefix_append ..

theorem mem_names_put {b : Bindings α} {name n : String} {a : α} :
    n ∈ (b.put name a).names ↔ n = name ∨ n ∈ b.names := by
  rw [names_put]
  split
  · next h =>
    constructor
    · exact .inr
    · rintro (rfl | hn)
      · exact h
      · exact hn
  · rw [List.mem_append, List.mem_singleton, or_comm]

end Bindings

end ScopeLisp
