/-
ScopeLisp.Proofs.Comparison.Alike — states that evaluation can tell apart only by what
their scopes hold.

What a value is called in messages and in print depends on the kinds and
parents of scopes, not on their records (`State.Alike.describe`), so a built-in
function does the same in alike states (`State.Alike.apply`).
-/
import ScopeLisp.Eval.Interp

namespace ScopeLisp

namespace State

/-- Two states in which the same scopes stand in the same places, the same
modules are kept, and the same calls and imports are running. Records and
output may differ. -/
structure Alike (s t : State) : Prop where
  size : s.store.size = t.store.size
  kind : ∀ id, s.store.kind? id = t.store.kind? id
  parent : ∀ id, s.store.parent? id = t.store.parent? id
  serials : s.serials = t.serials
  cache : s.cache = t.cache
  depth : s.depth = t.depth
  importing : s.importing = t.importing

theorem Alike.refl (s : State) : s.Alike s :=
  ⟨rfl, fun _ => rfl, fun _ => rfl, rfl, rfl, rfl, rfl⟩

end State

/-! ## The texts of values

What a value is called depends on the kinds and parents of scopes, not on
their records. -/

namespace State.Alike

variable {s t : State}

theorem isClass (h : s.Alike t) (id : ScopeId) : s.store.isClass id = t.store.isClass id := by
  simp only [Store.isClass, h.kind]

theorem className? (h : s.Alike t) (id : ScopeId) :
    s.store.className? id = t.store.className? id := by
  induction id using Nat.strongRecOn with
  | ind id ih =>
    rw [Store.className?_eq, Store.className?_eq, h.kind, h.parent]
    cases hp : t.store.parent? id with
    | none => rfl
    | some p => simp only [Option.bind_some, ih p (Store.lt_of_parent? hp)]

theorem scopeText (h : s.Alike t) (id : ScopeId) :
    s.store.scopeText id = t.store.scopeText id := by
  simp only [Store.scopeText, h.kind, h.className?]

theorem display (h : s.Alike t) (v : Value) : s.store.display v = t.store.display v := by
  unfold Store.display
  cases v <;> simp only [h.scopeText]

theorem typeName (h : s.Alike t) (v : Value) : s.store.typeName v = t.store.typeName v := by
  cases v <;> simp only [Store.typeName, h.kind]

theorem describe (h : s.Alike t) (v : Value) : s.store.describe v = t.store.describe v := by
  unfold Store.describe
  cases v <;> simp only [h.display, h.typeName]

/-- A host function is told the same in both states. -/
theorem told (h : s.Alike t) : s.store.told = t.store.told := by
  funext v
  unfold Store.told
  cases v <;> simp only [h.display, h.typeName]

theorem numbers (h : s.Alike t) (op : NativeOp) (args : List Value) :
    op.numbers s.store args = op.numbers t.store args := by
  induction args with
  | nil => rfl
  | cons v vs ih => cases v <;> simp only [NativeOp.numbers, ih, h.describe]

theorem result? (h : s.Alike t) (op : NativeOp) (args : List Value) :
    op.result? s.store args = op.result? t.store args := by
  cases op <;> simp only [NativeOp.result?, NativeOp.numeric?, h.numbers, h.told]

theorem written (h : s.Alike t) (op : NativeOp) (args : List Value) :
    op.written s.store args = op.written t.store args := by
  have displayed : s.store.display = t.store.display := funext h.display
  simp only [NativeOp.written, NativeOp.printedLine, displayed, h.told]

/-- A built-in function does the same in both states. -/
theorem apply (h : s.Alike t) (f : Native) (args : List Value) :
    f.apply s.store args = f.apply t.store args := by
  simp only [Native.apply, h.result?, h.written]

end State.Alike

/-! ## What built-in functions give -/

/-- Values without a scope in them. -/
def Value.IsPlain : Value → Prop
  | .closure _ | .scope _ => False
  | _ => True

/-- The end of a built-in function: a value without a scope in it or an argument, or an
error that has nothing to do with the limit. -/
def NativeEnd (args : List Value) : Except RuntimeError Value → Prop
  | .ok v => v.IsPlain ∨ v ∈ args
  | .error e => ∀ k, e ≠ .stackExhausted k

/-- The end of a built-in function, if it does not ask for an argument that is not there. -/
def NativeEnd? (args : List Value) : Option (Except RuntimeError Value) → Prop
  | some r => NativeEnd args r
  | none => True

variable {args : List Value}

theorem NativeEnd?.map {α : Type} {x : Option α} {f : α → Except RuntimeError Value}
    (h : ∀ a, NativeEnd args (f a)) : NativeEnd? args (x.map f) := by
  cases x with
  | none => trivial
  | some a => exact h a

/-- A host function answers with data or with an argument. -/
theorem HostFunction.call_end (f : HostFunction) (told : Value → HostArgument)
    (args : List Value) : NativeEnd args ((f.call told args).map Prod.fst) := by
  unfold HostFunction.call
  rcases answer : f.answer (args.map told) with e | ⟨d | place, lines⟩
  · intro k limit
    exact f.withinLimit _ k (answer.trans (congrArg _ limit))
  · cases d <;> exact .inl trivial
  · exact .inr (List.get_mem args _)

namespace NativeOp

theorem divided_end (compute : Float → Float → Float) (x y : Float) :
    NativeEnd args (divided compute x y) := by
  unfold divided
  split <;> simp [NativeEnd, Value.IsPlain]

theorem arithmetic?_end (op : NativeOp) (xs : List Float) :
    NativeEnd? args (op.arithmetic? xs) := by
  cases op with
  | add | multiply => exact .inl trivial
  | subtract =>
    unfold arithmetic?
    rcases xs with _ | ⟨_, _ | ⟨_, _ | _⟩⟩ <;> simp [NativeEnd?, NativeEnd, Value.IsPlain]
  | divide | remainder => exact .map fun _ => divided_end ..
  | less | lessEqual | greater | greaterEqual => exact .map fun _ => .inl trivial
  | _ => trivial

theorem numbers_error {st : Store} {op : NativeOp} {args : List Value} {e : RuntimeError}
    (h : op.numbers st args = .error e) (k : Nat) : e ≠ .stackExhausted k := by
  induction args with
  | nil => cases h
  | cons v vs ih =>
    cases v with
    | number x =>
      cases hvs : op.numbers st vs with
      | error e' =>
        simp only [numbers, hvs, Except.map, Except.error.injEq] at h
        exact ih (hvs.trans (congrArg _ h))
      | ok xs => simp [numbers, hvs, Except.map] at h
    | _ =>
      simp only [numbers, Except.error.injEq] at h
      simp [← h]

theorem numeric?_end (st : Store) (op : NativeOp) (args : List Value) :
    NativeEnd? args (op.numeric? st args) := by
  unfold numeric?
  split
  · exact op.arithmetic?_end _
  · next h => exact numbers_error h

theorem result?_end (st : Store) (op : NativeOp) (args : List Value) :
    NativeEnd? args (op.result? st args) := by
  unfold result?
  split
  · exact .inl trivial
  · exact .map fun _ => .inl trivial
  · exact .map fun _ => .inl trivial
  · next f => exact f.call_end st.told args
  · split
    · exact .inl trivial
    · exact numeric?_end ..
  · exact numeric?_end ..

end NativeOp

/-- Calls of built-in functions, too. -/
theorem Native.apply_end (st : Store) (f : Native) (args : List Value) :
    NativeEnd args ((f.apply st args).map Prod.fst) := by
  unfold Native.apply
  split
  · have h := f.op.result?_end st args
    rcases hr : f.op.result? st args with _ | _ | _ <;> rw [hr] at h
    · exact .inl trivial
    · exact h
    · exact h
  · simp [Except.map, NativeEnd]

end ScopeLisp
