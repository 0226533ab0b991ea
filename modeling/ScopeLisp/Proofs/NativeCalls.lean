/-
ScopeLisp.Proofs.NativeCalls — when calls of the standard functions fail.

The functions of the standard prelude read their arguments by place and rely on the
arity that they are declared with. A call is refused for the number of its arguments
first; then for the leftmost argument that is no number, if numbers are asked for; then
for a divisor that is zero. Nothing else goes wrong (`Native.standard_documented`): no
function reads an argument that is not there, and a call that fails prints nothing.
-/
import Mathlib
import ScopeLisp.Proofs.Comparison.Alike

namespace ScopeLisp

/-! ## Zero -/

/-- A number compares equal to zero if it is a zero of either sign. -/
theorem beq_zero_iff {x : Float} : (x == 0.0) = true ↔ x = 0.0 ∨ x = -0.0 := by
  have number : (0.0 : Float) ≠ Float.nan := by decide
  have signs : (0.0 : Float) ≠ -0 := by decide
  rw [Float.beq_iff_ne_nan_and_eq]
  constructor
  · rintro ⟨-, -, same | ⟨-, never⟩ | ⟨negative, -⟩⟩
    · exact .inl same
    · exact absurd never signs
    · exact .inr negative
  · rintro (rfl | rfl)
    · exact ⟨number, number, .inl rfl⟩
    · exact ⟨by decide, number, .inr (.inr ⟨rfl, rfl⟩)⟩

/-! ## Arguments -/

namespace Value

def IsNumber (v : Value) : Prop := ∃ x, v = .number x

def IsText (v : Value) : Prop := ∃ text, v = .str text

def IsTruth (v : Value) : Prop := ∃ b, v = .bool b

/-- Values that are all made in one way are made from a row. -/
theorem exists_eq_map {α : Type} {make : α → Value} {args : List Value}
    (h : ∀ v ∈ args, ∃ a, v = make a) : ∃ row : List α, args = row.map make := by
  have mem : args ∈ Set.range (List.map make) := by
    rw [Set.range_list_map]
    exact fun v mem => (h v mem).imp fun _ => Eq.symm
  exact mem.imp fun _ => Eq.symm

/-- If not every value is a number, there is a leftmost one that is none. -/
theorem exists_leftmost {args : List Value} (h : ∃ v ∈ args, ¬ v.IsNumber) :
    ∃ before v after, args = before ++ v :: after ∧ (∀ w ∈ before, w.IsNumber) ∧ ¬ v.IsNumber := by
  induction args with
  | nil => simp at h
  | cons v vs ih =>
    by_cases number : v.IsNumber
    · obtain ⟨w, mem, other⟩ := h
      have later : w ∈ vs := (List.mem_cons.1 mem).resolve_left fun same => other (same ▸ number)
      obtain ⟨before, u, after, rfl, numbers, last⟩ := ih ⟨w, later, other⟩
      exact ⟨v :: before, u, after, rfl, List.forall_mem_cons.2 ⟨number, numbers⟩, last⟩
    · exact ⟨[], v, vs, rfl, by simp, number⟩

end Value

namespace NativeOp

variable {st : Store} {op : NativeOp} {args : List Value}

theorem numbers_map (st : Store) (op : NativeOp) (xs : List Float) :
    op.numbers st (xs.map .number) = .ok xs := by
  induction xs with
  | nil => rfl
  | cons x xs ih => simp [numbers, ih, Except.map]

/-- The leftmost argument that is no number is named. -/
theorem numbers_leftmost {before : List Value} (h : ∀ w ∈ before, w.IsNumber) {v : Value}
    (other : ¬ v.IsNumber) (after : List Value) :
    op.numbers st (before ++ v :: after) =
      .error (.typeMismatch op.symbol .number (st.describe v)) := by
  induction before with
  | nil =>
    cases v with
    | number x => exact absurd ⟨x, rfl⟩ other
    | _ => rfl
  | cons w ws ih =>
    obtain ⟨⟨x, rfl⟩, rest⟩ := List.forall_mem_cons.1 h
    simp [numbers, ih rest, Except.map]

theorem concat?_map (texts : List String) :
    concat? (texts.map .str) = some (String.join texts) := by
  induction texts with
  | nil => rfl
  | cons text texts ih => simp [concat?, ih, String.join_cons]

theorem isText_of_concat? {text : String} (h : concat? args = some text) :
    ∀ v ∈ args, v.IsText := by
  induction args generalizing text with
  | nil => simp
  | cons v vs ih =>
    cases v with
    | str t =>
      obtain ⟨rest, hrest, -⟩ := Option.map_eq_some_iff.1 h
      exact List.forall_mem_cons.2 ⟨⟨t, rfl⟩, ih hrest⟩
    | _ => cases h

/-! ## Operations on numbers -/

/-- The operations that ask for numbers. -/
def asksNumbers : NativeOp → Bool
  | equal | notEqual | print | host _ => false
  | _ => true

def divides : NativeOp → Bool
  | divide | remainder => true
  | _ => false

def compares : NativeOp → Bool
  | less | lessEqual | greater | greaterEqual => true
  | _ => false

/-- The operations that read their first two arguments by place. -/
def readsTwo : NativeOp → Bool
  | equal | notEqual => true
  | op => op.divides || op.compares

theorem readsTwo_of_divides (divides : op.divides) : op.readsTwo := by
  cases op with
  | divide | remainder => rfl
  | _ => cases divides

theorem result?_add_texts (texts : List String) :
    add.result? st (texts.map .str) = some (.ok (.str (String.join texts))) := by
  simp only [result?, concat?_map]

/-- Only `+` does not ask for numbers at once. -/
theorem result?_eq_numeric? (asks : op.asksNumbers) (texts : op = add → ¬ ∀ v ∈ args, v.IsText) :
    op.result? st args = op.numeric? st args := by
  cases op with
  | add =>
    cases sum : concat? args with
    | some text => exact absurd (isText_of_concat? sum) (texts rfl)
    | none => simp only [result?, sum]
  | equal | notEqual | print | host => cases asks
  | _ => rfl

theorem divided_of_zero (compute : Float → Float → Float) (x : Float) {y : Float}
    (zero : y = 0.0 ∨ y = -0.0) : divided compute x y = .error .divisionByZero :=
  if_pos (beq_zero_iff.2 zero)

theorem divided_of_not_zero (compute : Float → Float → Float) (x : Float) {y : Float}
    (nonzero : ¬(y = 0.0 ∨ y = -0.0)) :
    divided compute x y = .ok (.number (compute x y)) :=
  if_neg (beq_zero_iff.not.2 nonzero)

theorem arithmetic?_of_zero (divides : op.divides) (x : Float) {y : Float}
    (zero : y = 0.0 ∨ y = -0.0) : op.arithmetic? [x, y] = some (.error .divisionByZero) := by
  cases op with
  | divide | remainder => exact congrArg some (divided_of_zero _ x zero)
  | _ => cases divides

/-- What does not ask for numbers succeeds, if it has the arguments that it reads and is not
the host's. -/
theorem exists_result?_of_not_asksNumbers (asks : op.asksNumbers = false)
    (own : ∀ g, op ≠ host g) (two : op.readsTwo → ∃ v w, args = [v, w]) :
    ∃ v, op.result? st args = some (.ok v) := by
  cases op with
  | equal | notEqual =>
    obtain ⟨v, w, rfl⟩ := two rfl
    exact ⟨_, rfl⟩
  | print => exact ⟨_, rfl⟩
  | host g => exact absurd rfl (own g)
  | _ => cases asks

/-- Two numbers are enough for what reads two, if it does not divide by zero. -/
theorem arithmetic?_of_two (asks : op.asksNumbers) (two : op.readsTwo) (x y : Float)
    (nonzero : op.divides → ¬(y = 0.0 ∨ y = -0.0)) :
    ∃ v, op.arithmetic? [x, y] = some (.ok v) ∧ if op.compares then v.IsTruth else v.IsNumber := by
  cases op with
  | divide | remainder =>
    exact ⟨_, congrArg some (divided_of_not_zero _ x (nonzero rfl)), _, rfl⟩
  | less | lessEqual | greater | greaterEqual => exact ⟨_, rfl, _, rfl⟩
  | equal | notEqual => cases asks
  | _ => cases two

/-- So is any row of numbers for the others, but that `-` takes one or two. -/
theorem arithmetic?_of_not_readsTwo (asks : op.asksNumbers) (two : op.readsTwo = false)
    {xs : List Float} (few : op = subtract → xs.length = 1 ∨ xs.length = 2) :
    ∃ v, op.arithmetic? xs = some (.ok v) ∧ if op.compares then v.IsTruth else v.IsNumber := by
  cases op with
  | add | multiply => exact ⟨_, rfl, _, rfl⟩
  | subtract =>
    rcases few rfl with one | two
    · obtain ⟨x, rfl⟩ := List.length_eq_one_iff.1 one
      exact ⟨_, rfl, _, rfl⟩
    · obtain ⟨x, y, rfl⟩ := List.length_eq_two.1 two
      exact ⟨_, rfl, _, rfl⟩
  | print | host => cases asks
  | _ => cases two

end NativeOp

/-! ## Standard functions -/

namespace Native

/-- The function is one of the standard prelude, under any serial number. -/
def Standard (f : Native) : Prop := (f.name, f.arity, f.op) ∈ Prelude.functions

end Native

/-- The functions of a prelude are standard ones, each under its own name. -/
def Prelude.OnlyStandard (p : Prelude) : Prop :=
  ∀ e ∈ p.entries.entries, ∀ f, e.2 = .native f → f.name = e.1 ∧ f.Standard

namespace Prelude

variable {p : Prelude} {name : String}

theorem OnlyStandard.constant (h : p.OnlyStandard) {v : Value} (other : ∀ f, v ≠ .native f) :
    (p.constant name v).OnlyStandard :=
  Bindings.forall_mem_entries_put (fun f same => absurd same (other f)) h

theorem OnlyStandard.native (h : p.OnlyStandard) {arity : Arity} {op : NativeOp}
    (row : (name, arity, op) ∈ functions) : (p.native name arity op).OnlyStandard :=
  Bindings.forall_mem_entries_put (fun _ same => by cases same; exact ⟨rfl, row⟩) h

theorem standard_onlyStandard : standard.OnlyStandard := by
  have constants_other : ∀ c ∈ constants, ∀ f, c.2 ≠ .native f := by simp [constants]
  have start : (constants.foldl (fun p c => p.constant c.1 c.2) empty).OnlyStandard :=
    List.foldlRecOn _ _ (fun _ never => nomatch never) fun _ h c mem =>
      h.constant (constants_other c mem)
  exact List.foldlRecOn _ _ start fun _ h _ row => h.native row

end Prelude

namespace Native

variable {f : Native} {args : List Value} {s : State}

namespace Standard

/-- What holds of every row of the table holds of a standard function. -/
theorem of_rows (h : f.Standard) {P : String → Arity → NativeOp → Prop}
    (rows : ∀ r ∈ Prelude.functions, P r.1 r.2.1 r.2.2) : P f.name f.arity f.op :=
  rows _ h

theorem asksNumbers_iff (h : f.Standard) :
    f.op.asksNumbers ↔ f.name ∉ ["=", "==", "!=", "print"] :=
  h.of_rows (P := fun name _ op => op.asksNumbers ↔ name ∉ ["=", "==", "!=", "print"]) (by decide)

theorem divides_iff (h : f.Standard) : f.op.divides ↔ f.name ∈ ["/", "%"] :=
  h.of_rows (P := fun name _ op => op.divides ↔ name ∈ ["/", "%"]) (by decide)

theorem compares_iff (h : f.Standard) : f.op.compares ↔ f.name ∈ ["<", "<=", ">", ">="] :=
  h.of_rows (P := fun name _ op => op.compares ↔ name ∈ ["<", "<=", ">", ">="]) (by decide)

theorem op_eq_add_iff (h : f.Standard) : f.op = .add ↔ f.name = "+" :=
  h.of_rows (P := fun name _ op => op = .add ↔ name = "+") (by simp [Prelude.functions])

theorem op_eq_equal_iff (h : f.Standard) : f.op = .equal ↔ f.name ∈ ["=", "=="] :=
  h.of_rows (P := fun name _ op => op = .equal ↔ name ∈ ["=", "=="]) (by simp [Prelude.functions])

theorem op_eq_notEqual_iff (h : f.Standard) : f.op = .notEqual ↔ f.name = "!=" :=
  h.of_rows (P := fun name _ op => op = .notEqual ↔ name = "!=") (by simp [Prelude.functions])

theorem op_eq_print_iff (h : f.Standard) : f.op = .print ↔ f.name = "print" :=
  h.of_rows (P := fun name _ op => op = .print ↔ name = "print") (by simp [Prelude.functions])

/-- Messages write the operation as the function is named. -/
theorem symbol_eq (h : f.Standard) : f.op.asksNumbers → f.op.symbol = f.name :=
  h.of_rows (P := fun name _ op => op.asksNumbers → op.symbol = name) (by decide)

/-- The declared arity is that of the operation. -/
theorem arity_of_readsTwo (h : f.Standard) : f.op.readsTwo → f.arity = .exact 2 :=
  h.of_rows (P := fun _ arity op => op.readsTwo → arity = .exact 2) (by decide)

theorem arity_of_subtract (h : f.Standard) : f.op = .subtract → f.arity = .range 1 2 :=
  h.of_rows (P := fun _ arity op => op = .subtract → arity = .range 1 2)
    (by simp [Prelude.functions])

theorem op_ne_host (h : f.Standard) : ∀ g, f.op ≠ .host g :=
  h.of_rows (P := fun _ _ op => ∀ g, op ≠ .host g) (by simp [Prelude.functions])

/-- Only `print` writes. -/
theorem written_eq_empty (h : f.Standard) (quiet : f.name ≠ "print") (st : Store)
    (args : List Value) : f.op.written st args = #[] :=
  h.of_rows (P := fun name _ op => name ≠ "print" → op.written st args = #[])
    (by simp [Prelude.functions, NativeOp.written]) quiet

theorem two_of_accepted {α : Type} (h : f.Standard) (two : f.op.readsTwo) {operands : List α}
    (accepted : f.arity.accepts operands.length) : ∃ a b, operands = [a, b] := by
  rw [h.arity_of_readsTwo two] at accepted
  exact List.length_eq_two.1 (beq_iff_eq.1 accepted)

/-- The numbers that are accepted are enough. -/
theorem arithmetic?_of_accepted (h : f.Standard) (asks : f.op.asksNumbers) {xs : List Float}
    (accepted : f.arity.accepts xs.length)
    (nonzero : f.op.divides → ∀ y, xs[1]? = some y → ¬(y = 0.0 ∨ y = -0.0)) :
    ∃ v, f.op.arithmetic? xs = some (.ok v) ∧
      if f.op.compares then v.IsTruth else v.IsNumber := by
  cases two : f.op.readsTwo with
  | true =>
    obtain ⟨x, y, rfl⟩ := h.two_of_accepted two accepted
    exact NativeOp.arithmetic?_of_two asks two x y fun divides => nonzero divides y rfl
  | false =>
    refine NativeOp.arithmetic?_of_not_readsTwo asks two fun subtract => ?_
    rw [h.arity_of_subtract subtract] at accepted
    simp only [Arity.accepts, Bool.and_eq_true, decide_eq_true_eq] at accepted
    omega

end Standard

/-! ## Calls -/

theorem callNative_refused (refused : f.arity.accepts args.length = false) :
    Eval.callNative f args s = (.error (.arityMismatch f.name f.arity args.length), s) := by
  simp [Eval.callNative, apply, refused]

theorem callNative_error (accepted : f.arity.accepts args.length) {e : RuntimeError}
    (result : f.op.result? s.store args = some (.error e)) :
    Eval.callNative f args s = (.error e, s) := by
  simp [Eval.callNative, apply, accepted, result, Except.map]

/-- An accepted call fails only with what its operation fails with. -/
theorem result?_of_callNative (accepted : f.arity.accepts args.length) {e : RuntimeError}
    (fails : (Eval.callNative f args s).1 = .error e) :
    f.op.result? s.store args = some (.error e) := by
  rw [Eval.callNative, apply, if_pos accepted] at fails
  -- Without a result, or with a value, the call does not fail.
  rcases result : f.op.result? s.store args with _ | failed | v <;> rw [result] at fails <;>
    cases fails
  rfl

/-- What writes nothing leaves the state alone. -/
theorem callNative_value (accepted : f.arity.accepts args.length) {v : Value}
    (result : f.op.result? s.store args = some (.ok v))
    (quiet : f.op.written s.store args = #[]) :
    Eval.callNative f args s = (.value v, s) := by
  simp [Eval.callNative, apply, accepted, result, quiet, Except.map]

theorem callNative_print (accepted : f.arity.accepts args.length) (prints : f.op = .print) :
    Eval.callNative f args s =
      (.value .null,
        { s with output := s.output.push (NativeOp.printedLine s.store args) }) := by
  simp [Eval.callNative, apply, accepted, prints, NativeOp.result?, NativeOp.written, Except.map]

/-- A call of whatever function, also of the host's, gives a value without a scope in it or
one of the arguments, and it does no more than write lines; or it fails and does nothing. -/
theorem callNative_cases (f : Native) (args : List Value) (s : State) :
    (∃ v lines, (v.IsPlain ∨ v ∈ args) ∧
        Eval.callNative f args s = (.value v, { s with output := s.output ++ lines })) ∨
      ∃ e, (∀ depth, e ≠ .stackExhausted depth) ∧ Eval.callNative f args s = (.error e, s) := by
  have ends := f.apply_end s.store args
  rcases applied : f.apply s.store args with e | ⟨v, lines⟩ <;> rw [applied] at ends
  · exact .inr ⟨e, ends, by simp only [Eval.callNative, applied]⟩
  · exact .inl ⟨v, lines, ends, by simp only [Eval.callNative, applied]⟩

example (s : State) :
    (Eval.callNative ⟨0, "count", .atLeast 1, .countArguments⟩ [.null, .scope 3] s).1 =
      .value (.number 2) := rfl

/-- A call that fails, of whatever function, changes nothing and prints nothing. -/
theorem callNative_silent {e : RuntimeError} {s' : State}
    (fails : Eval.callNative f args s = (.error e, s')) : s' = s := by
  obtain ⟨v, lines, -, value⟩ | ⟨e', -, failed⟩ := callNative_cases f args s
  · rw [value] at fails
    cases fails
  · rw [failed] at fails
    cases fails
    rfl

/-! ## What is documented -/

/-- A call asks for numbers if it is no equality, no `print` and no `+` on strings. -/
def AsksNumbers (f : Native) (args : List Value) : Prop :=
  f.name ∉ ["=", "==", "!=", "print"] ∧ ¬(f.name = "+" ∧ ∀ v ∈ args, v.IsText)

/-- The second number of a division is a zero of either sign. -/
def DividesByZero (f : Native) (xs : List Float) : Prop :=
  f.name ∈ ["/", "%"] ∧ ∃ y, xs[1]? = some y ∧ (y = 0.0 ∨ y = -0.0)

/-- A comparison gives a boolean, arithmetic a number. -/
def Computes (f : Native) (v : Value) : Prop :=
  if f.name ∈ ["<", "<=", ">", ">="] then v.IsTruth else v.IsNumber

/-- What is documented of a call that has an accepted number of arguments. -/
structure Answers (f : Native) (args : List Value) (s : State) : Prop where
  /-- The operation asks for no argument that is not there. -/
  inRange : (f.op.result? s.store args).isSome
  /-- Nor does it find their number wrong itself, as subtraction could. -/
  matched : ∀ callee expected found,
    f.op.result? s.store args ≠ some (.error (.arityMismatch callee expected found))
  equal : f.name ∈ ["=", "=="] →
    ∃ v w, args = [v, w] ∧ Eval.callNative f args s = (.value (.bool (v == w)), s)
  notEqual : f.name = "!=" →
    ∃ v w, args = [v, w] ∧ Eval.callNative f args s = (.value (.bool (!(v == w))), s)
  print : f.name = "print" →
    Eval.callNative f args s =
      (.value .null, { s with output := s.output.push (NativeOp.printedLine s.store args) })
  joined : f.name = "+" → ∀ texts : List String, args = texts.map .str →
    Eval.callNative f args s = (.value (.str (String.join texts)), s)
  mismatch : f.AsksNumbers args →
    ((∃ operation expected found,
      (Eval.callNative f args s).1 = .error (.typeMismatch operation expected found)) ↔
        ∃ v ∈ args, ¬ v.IsNumber)
  leftmost : f.AsksNumbers args →
    ∀ before v after, args = before ++ v :: after → (∀ w ∈ before, w.IsNumber) → ¬ v.IsNumber →
      Eval.callNative f args s =
        (.error (.typeMismatch f.name .number (s.store.describe v)), s)
  zeroDivisor : ∀ xs : List Float, args = xs.map .number → f.AsksNumbers args →
    ((Eval.callNative f args s).1 = .error .divisionByZero ↔ f.DividesByZero xs)
  computes : ∀ xs : List Float, args = xs.map .number → f.AsksNumbers args →
    ¬ f.DividesByZero xs →
      ∃ v, f.Computes v ∧ Eval.callNative f args s = (.value v, s)

/-- What is documented of any call. -/
structure Documented (f : Native) (args : List Value) (s : State) : Prop where
  /-- No call is an arity mismatch for any other reason. -/
  arity : (∃ callee expected found,
    (Eval.callNative f args s).1 = .error (.arityMismatch callee expected found)) ↔
      f.arity.accepts args.length = false
  refused : f.arity.accepts args.length = false →
    Eval.callNative f args s = (.error (.arityMismatch f.name f.arity args.length), s)
  answers : f.arity.accepts args.length → f.Answers args s
  silent : ∀ e s', Eval.callNative f args s = (.error e, s') → s' = s

namespace Standard

variable {st : Store} {xs : List Float}

/-- Asking for numbers, the operation does nothing else first. -/
theorem result?_of_asksNumbers (h : f.Standard) (asks : f.AsksNumbers args) :
    f.op.result? st args = f.op.numeric? st args :=
  NativeOp.result?_eq_numeric? (h.asksNumbers_iff.2 asks.1) fun add texts =>
    asks.2 ⟨h.op_eq_add_iff.1 add, texts⟩

theorem result?_of_texts (h : f.Standard) (plus : f.name = "+") (texts : List String) :
    f.op.result? st (texts.map .str) = some (.ok (.str (String.join texts))) := by
  rw [h.op_eq_add_iff.2 plus, NativeOp.result?_add_texts]

theorem result?_of_leftmost (h : f.Standard) {before after : List Value} {v : Value}
    (asks : f.AsksNumbers (before ++ v :: after)) (numbers : ∀ w ∈ before, w.IsNumber)
    (other : ¬ v.IsNumber) :
    f.op.result? st (before ++ v :: after) =
      some (.error (.typeMismatch f.name .number (st.describe v))) := by
  rw [h.result?_of_asksNumbers asks, NativeOp.numeric?,
    NativeOp.numbers_leftmost numbers other, h.symbol_eq (h.asksNumbers_iff.2 asks.1)]

theorem result?_of_numbers (h : f.Standard) (asks : f.AsksNumbers (xs.map .number)) :
    f.op.result? st (xs.map .number) = f.op.arithmetic? xs := by
  rw [h.result?_of_asksNumbers asks, NativeOp.numeric?, NativeOp.numbers_map]

theorem result?_of_dividesByZero (h : f.Standard) (asks : f.AsksNumbers (xs.map .number))
    (accepted : f.arity.accepts (xs.map Value.number).length) (zero : f.DividesByZero xs) :
    f.op.result? st (xs.map .number) = some (.error .divisionByZero) := by
  obtain ⟨division, y, second, zero⟩ := zero
  have divides : f.op.divides := h.divides_iff.2 division
  have two := NativeOp.readsTwo_of_divides divides
  rw [List.length_map] at accepted
  obtain ⟨x, y', rfl⟩ := h.two_of_accepted two accepted
  cases second
  rw [h.result?_of_numbers asks, NativeOp.arithmetic?_of_zero divides x zero]

theorem result?_of_not_dividesByZero (h : f.Standard) (asks : f.AsksNumbers (xs.map .number))
    (accepted : f.arity.accepts (xs.map Value.number).length) (nonzero : ¬ f.DividesByZero xs) :
    ∃ v, f.Computes v ∧ f.op.result? st (xs.map .number) = some (.ok v) := by
  rw [List.length_map] at accepted
  obtain ⟨v, result, sort⟩ := h.arithmetic?_of_accepted (h.asksNumbers_iff.2 asks.1) accepted
    fun divides y second zero => nonzero ⟨h.divides_iff.1 divides, y, second, zero⟩
  simp only [h.compares_iff] at sort
  exact ⟨v, sort, h.result?_of_numbers asks ▸ result⟩

/-- An accepted call succeeds, divides by zero, or has an argument that is no number. -/
theorem result?_cases (h : f.Standard) (accepted : f.arity.accepts args.length) :
    (∃ v, f.op.result? st args = some (.ok v)) ∨
      f.op.result? st args = some (.error .divisionByZero) ∨
      ∃ v, f.op.result? st args = some (.error (.typeMismatch f.name .number (st.describe v))) := by
  by_cases asks : f.AsksNumbers args
  · by_cases numbers : ∀ v ∈ args, v.IsNumber
    · obtain ⟨xs, rfl⟩ := Value.exists_eq_map numbers
      by_cases zero : f.DividesByZero xs
      · exact .inr (.inl (h.result?_of_dividesByZero asks accepted zero))
      · obtain ⟨v, -, result⟩ := h.result?_of_not_dividesByZero asks accepted zero
        exact .inl ⟨v, result⟩
    · push Not at numbers
      obtain ⟨before, v, after, rfl, numbers, other⟩ := Value.exists_leftmost numbers
      exact .inr (.inr ⟨v, h.result?_of_leftmost asks numbers other⟩)
  · cases op : f.op.asksNumbers with
    | true =>
      -- What asks for numbers, but not in this call, is `+` on strings.
      have concatenates : f.name = "+" ∧ ∀ v ∈ args, v.IsText :=
        not_not.1 fun other => asks ⟨h.asksNumbers_iff.1 op, other⟩
      obtain ⟨texts, rfl⟩ := Value.exists_eq_map concatenates.2
      exact .inl ⟨_, h.result?_of_texts concatenates.1 texts⟩
    | false =>
      exact .inl (NativeOp.exists_result?_of_not_asksNumbers op h.op_ne_host fun two =>
        h.two_of_accepted two accepted)

theorem callNative_of_not_dividesByZero (h : f.Standard) (asks : f.AsksNumbers (xs.map .number))
    (accepted : f.arity.accepts (xs.map Value.number).length) (nonzero : ¬ f.DividesByZero xs) :
    ∃ v, f.Computes v ∧ Eval.callNative f (xs.map .number) s = (.value v, s) := by
  obtain ⟨v, computes, result⟩ := h.result?_of_not_dividesByZero asks accepted nonzero
  have quiet : f.name ≠ "print" := fun prints => asks.1 (by simp [prints])
  exact ⟨v, computes, callNative_value accepted result (h.written_eq_empty quiet ..)⟩

theorem answers (h : f.Standard) (accepted : f.arity.accepts args.length) : f.Answers args s where
  inRange := by
    rcases h.result?_cases accepted with ⟨v, result⟩ | result | ⟨v, result⟩ <;> rw [result] <;> rfl
  matched callee expected found := by
    rcases h.result?_cases accepted with ⟨v, result⟩ | result | ⟨v, result⟩ <;>
      rw [result] <;> simp
  equal name := by
    have op : f.op = .equal := h.op_eq_equal_iff.2 name
    obtain ⟨v, w, rfl⟩ := h.two_of_accepted (by rw [op]; rfl) accepted
    exact ⟨v, w, rfl, callNative_value accepted (by rw [op]; rfl) (by rw [op]; rfl)⟩
  notEqual name := by
    have op : f.op = .notEqual := h.op_eq_notEqual_iff.2 name
    obtain ⟨v, w, rfl⟩ := h.two_of_accepted (by rw [op]; rfl) accepted
    exact ⟨v, w, rfl, callNative_value accepted (by rw [op]; rfl) (by rw [op]; rfl)⟩
  print name := callNative_print accepted (h.op_eq_print_iff.2 name)
  joined name texts same := by
    subst same
    exact callNative_value accepted (h.result?_of_texts name texts)
      (by rw [h.op_eq_add_iff.2 name]; rfl)
  mismatch asks := by
    constructor
    · rintro ⟨operation, expected, found, fails⟩
      by_contra numbers
      push Not at numbers
      -- On numbers, there is a value or a zero divisor, and neither is a mismatch.
      obtain ⟨xs, rfl⟩ := Value.exists_eq_map numbers
      have fails := result?_of_callNative accepted fails
      by_cases zero : f.DividesByZero xs
      · rw [h.result?_of_dividesByZero asks accepted zero] at fails
        cases fails
      · obtain ⟨v, -, result⟩ := h.result?_of_not_dividesByZero asks accepted zero
        rw [result] at fails
        cases fails
    · intro other
      obtain ⟨before, v, after, rfl, numbers, other⟩ := Value.exists_leftmost other
      rw [callNative_error accepted (h.result?_of_leftmost asks numbers other)]
      exact ⟨_, _, _, rfl⟩
  leftmost asks before v after same numbers other := by
    subst same
    exact callNative_error accepted (h.result?_of_leftmost asks numbers other)
  zeroDivisor xs same asks := by
    subst same
    constructor
    · intro fails
      by_contra nonzero
      obtain ⟨v, -, value⟩ := h.callNative_of_not_dividesByZero asks accepted nonzero
      rw [value] at fails
      cases fails
    · intro zero
      rw [callNative_error accepted (h.result?_of_dividesByZero asks accepted zero)]
  computes xs same asks nonzero := by
    subst same
    exact h.callNative_of_not_dividesByZero asks accepted nonzero

end Standard

/-- **Standard functions fail as documented.** Whatever the arguments of a function of the
standard prelude are, a call is an arity mismatch just if their number is not accepted. If
it is, no argument is asked for that is not there; equality, its negation, `print` and `+`
on strings succeed; any other call fails for the leftmost argument that is no number, then
for a second number that is zero, and gives a number or a boolean else. What fails prints
nothing. -/
theorem standard_documented {name : String} {f : Native}
    (declared : Prelude.standard.entries.get? name = some (.native f)) (args : List Value)
    (s : State) : f.name = name ∧ f.Documented args s := by
  obtain ⟨named, standard⟩ :=
    Prelude.standard_onlyStandard _ (Bindings.mem_entries_of_get? declared) f rfl
  refine ⟨named, ?_, callNative_refused, standard.answers, fun e s' => callNative_silent⟩
  constructor
  · rintro ⟨callee, expected, found, fails⟩
    by_contra accepted
    have accepted : f.arity.accepts args.length := by simpa using accepted
    exact (standard.answers accepted).matched callee expected found
      (result?_of_callNative accepted fails)
  · intro refused
    rw [callNative_refused refused]
    exact ⟨_, _, _, rfl⟩

/-- Division by the negative zero fails, in a fresh state. -/
theorem quotient_by_negative_zero :
    Prelude.standard.entries.get? "/" = some (.native ⟨3, "/", .exact 2, .divide⟩) ∧
      (Eval.callNative ⟨3, "/", .exact 2, .divide⟩ [.number 1.0, .number (-0.0)]
        (State.fresh .standard)).1 = .error .divisionByZero := by
  have declared :
      Prelude.standard.entries.get? "/" = some (.native ⟨3, "/", .exact 2, .divide⟩) := rfl
  have documented := (standard_documented declared [.number 1.0, .number (-0.0)]
    (State.fresh .standard)).2
  have asks : AsksNumbers ⟨3, "/", .exact 2, .divide⟩ [.number 1.0, .number (-0.0)] :=
    ⟨by decide, fun plus => absurd plus.1 (by decide)⟩
  exact ⟨declared, ((documented.answers rfl).zeroDivisor [1.0, -0.0] rfl asks).2
    ⟨by decide, -0.0, rfl, .inr rfl⟩⟩

end Native

end ScopeLisp
