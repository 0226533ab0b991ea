/-
ScopeLisp.Proofs.Json.Scalars — strings and numerals of a JSON text are read as they were
written.

Of a string the units may differ: a control character without an escape of its own is
written by its number and read as a code unit (`JsonUnit.reread`), which stands for the
same character (`stringOfUnits?_reread`). A numeral is read as it is if it is one of the
grammar (`JsonNumeral.Grammatical`), which all numerals of numbers are
(`grammatical_ofBinary64?`), and if what follows is no part of it (`Ends`).
-/
import ScopeLisp.Json.Numeral
import ScopeLisp.Json.Read
import ScopeLisp.Json.Write
import ScopeLisp.Proofs.Number.ReadBack
import ScopeLisp.Proofs.Syntax.Scanning

namespace ScopeLisp

/-! ## Strings -/

/-- The unit consists of a character. -/
def JsonUnit.IsChar (u : JsonUnit) : Prop := ∃ c, u = .char c

/-- The control characters that have no letter after a backslash. -/
def isBareControl (c : Char) : Bool :=
  decide (c.toNat < 0x20) && !(['\x08', '\x0c', '\n', '\r', '\t'].contains c)

/-- The unit that is read where one was written. -/
def JsonUnit.reread : JsonUnit → JsonUnit
  | .char c => if isBareControl c then .code c.toNat else .char c
  | .code unit => .code unit

namespace JsonTree

/-- The number of a control character is read as it is written. -/
theorem readEscape_control {n : ℕ} (h : n < 0x20) (rest : List Char) :
    readEscape ('u' :: (hexPadded 4 n ++ rest)) = some (.code n, rest) := by
  have digits : ∀ n < 0x20,
      hexPadded 4 n = ['0', '0', (n / 16).digitChar, (n % 16).digitChar] ∧
        hexValue? (n / 16).digitChar = some (n / 16) ∧
          hexValue? (n % 16).digitChar = some (n % 16) := by
    decide
  obtain ⟨written, high, low⟩ := digits n h
  have zero : hexValue? '0' = some 0 := by decide
  simp [written, readEscape, zero, high, low]
  omega

theorem readUnits_escape {cs rest : List Char} {u : JsonUnit}
    (h : readEscape cs = some (u, rest)) (fuel : ℕ) (before : List JsonUnit) :
    readUnits (fuel + 1) before ('\\' :: cs) = readUnits fuel (u :: before) rest := by
  simp [readUnits, h]

/-- A character that stands for itself is read as it is. -/
theorem readUnits_plain {c : Char} (quote : c ≠ '"') (backslash : c ≠ '\\')
    (printable : ¬ c.toNat < 0x20) (fuel : ℕ) (before : List JsonUnit) (rest : List Char) :
    readUnits (fuel + 1) before (c :: rest) = readUnits fuel (.char c :: before) rest := by
  rw [readUnits, if_neg printable]
  · exact quote
  · exact backslash

/-- One character of a string is read as it is written. -/
theorem readUnits_write (fuel : ℕ) (before : List JsonUnit) (c : Char) (rest : List Char) :
    readUnits (fuel + 1) before ((JsonUnit.char c).write ++ rest) =
      readUnits fuel ((JsonUnit.char c).reread :: before) rest := by
  by_cases named : c ∈ ['"', '\\', '\x08', '\x0c', '\n', '\r', '\t']
  · simp only [List.mem_cons, List.not_mem_nil, or_false] at named
    rcases named with rfl | rfl | rfl | rfl | rfl | rfl | rfl <;>
      exact readUnits_escape rfl fuel before
  · simp only [List.mem_cons, List.not_mem_nil, or_false, not_or] at named
    obtain ⟨quote, backslash, b, f, n, r, t⟩ := named
    simp only [JsonUnit.write, JsonUnit.reread, isBareControl, quote, backslash, b, f, n, r, t,
      if_false]
    by_cases control : c.toNat < 0x20
    · simpa [control, b, f, n, r, t] using readUnits_escape (readEscape_control control rest) ..
    · simpa [control] using readUnits_plain quote backslash control ..

/-- The units of a string are read up to the quote that closes it. -/
theorem readUnits_flatMap {units : List JsonUnit} (chars : ∀ u ∈ units, u.IsChar) :
    ∀ {fuel : ℕ} (before : List JsonUnit) (rest : List Char), units.length < fuel →
      readUnits fuel before (units.flatMap JsonUnit.write ++ '"' :: rest) =
        some (before.reverse ++ units.map JsonUnit.reread, rest) := by
  induction units with
  | nil =>
    intro fuel before rest enough
    obtain ⟨fuel, rfl⟩ := Nat.exists_eq_add_of_lt enough
    simp [readUnits]
  | cons u units ih =>
    intro fuel before rest enough
    obtain ⟨⟨c, rfl⟩, others⟩ := List.forall_mem_cons.1 chars
    obtain ⟨fuel, rfl⟩ := Nat.exists_eq_add_of_lt enough
    rw [List.flatMap_cons, List.append_assoc, readUnits_write,
      ih others _ _ (by rw [List.length_cons]; omega)]
    simp

theorem length_write_pos (u : JsonUnit) : 0 < u.write.length := by
  cases u with
  | code unit => simp [JsonUnit.write]
  | char c =>
    rw [JsonUnit.write]
    split_ifs <;> simp

theorem length_le_flatMap_write (units : List JsonUnit) :
    units.length ≤ (units.flatMap JsonUnit.write).length := by
  induction units with
  | nil => exact Nat.le_refl 0
  | cons u units ih =>
    have := length_write_pos u
    simp only [List.flatMap_cons, List.length_append, List.length_cons]
    omega

/-- **A string is read as it was written**, its control characters by their numbers. -/
theorem readUnits_string {units : List JsonUnit} (chars : ∀ u ∈ units, u.IsChar)
    (rest : List Char) {cs : List Char} (h : cs = units.flatMap JsonUnit.write ++ '"' :: rest) :
    readUnits (cs.length + 1) [] cs = some (units.map JsonUnit.reread, rest) := by
  subst h
  rw [readUnits_flatMap chars [] rest]
  · rfl
  · have := length_le_flatMap_write units
    simp only [List.length_append, List.length_cons]
    omega

/-- A small code unit stands for the character with its number. -/
theorem stringOfUnits?_code {unit : ℕ} (h : unit < 0xD800) (units : List JsonUnit) :
    stringOfUnits? (.code unit :: units) =
      (stringOfUnits? units).map (Char.ofNat unit :: ·) := by
  rw [stringOfUnits?.eq_def]
  simp only [show ¬ (0xD800 ≤ unit ∧ unit < 0xDC00) by omega,
    show ¬ (0xDC00 ≤ unit ∧ unit < 0xE000) by omega, if_false]

/-- What is read stands for the string that was written. -/
theorem stringOfUnits?_reread {units : List JsonUnit} (chars : ∀ u ∈ units, u.IsChar) :
    stringOfUnits? (units.map JsonUnit.reread) = stringOfUnits? units := by
  induction units with
  | nil => rfl
  | cons u units ih =>
    obtain ⟨⟨c, rfl⟩, others⟩ := List.forall_mem_cons.1 chars
    rw [List.map_cons, JsonUnit.reread, stringOfUnits?]
    split
    next bare =>
      rw [isBareControl, Bool.and_eq_true, decide_eq_true_eq] at bare
      rw [stringOfUnits?_code (by omega), ih others, Char.ofNat_toNat]
    next => rw [stringOfUnits?, ih others]

end JsonTree

/-! ## Digits -/

/-- Digits are taken up to where others no longer follow. -/
theorem spanDigits_append {ds rest : List Char} (digits : ∀ c ∈ ds, c.isDigit = true)
    (stop : ∀ c ∈ rest.head?, c.isDigit = false) : spanDigits (ds ++ rest) = (ds, rest) := by
  rw [spanDigits, takeWhile_append_of_stop stop, List.takeWhile_eq_self_iff.2 digits,
    List.dropWhile_append_of_pos digits, dropWhile_eq_self_of_stop stop]

/-- A plain numeral is split at its point. -/
theorem PlainNumeral.split_text (p : PlainNumeral) :
    p.text.takeWhile Char.isDigit = p.whole ∧
      (p.text.dropWhile Char.isDigit).drop 1 = p.fraction := by
  rw [text]
  split
  next no_fraction =>
    obtain ⟨taken, left⟩ := Prod.mk.inj (spanDigits_digits p.whole_digits)
    exact ⟨taken, by rw [left, no_fraction]; rfl⟩
  next some_fraction =>
    obtain ⟨taken, left⟩ := Prod.mk.inj (spanDigits_point p.whole_digits p.fraction)
    exact ⟨taken, by rw [left]; rfl⟩

theorem head?_decimalDigits {n : ℕ} (h : 0 < n) : (decimalDigits n).head? ≠ some '0' := by
  induction n using Nat.strong_induction_on with
  | _ n ih =>
    rw [decimalDigits, Nat.toDigits_eq_if (by norm_num)]
    split
    next short => interval_cases n <;> decide
    next long =>
      rw [List.head?_append_of_ne_nil _ Nat.toDigits_ne_nil]
      exact ih (n / 10) (by omega) (by omega)

/-- A positional decimal starts with a zero only before the point. -/
theorem Decimal.head?_positional (d : Decimal) (h : 0 < d.digits) :
    d.positional.head? ≠ some '0' ∨ ∃ cs, d.positional = '0' :: '.' :: cs := by
  obtain ⟨n, e⟩ := d
  have leading := head?_decimalDigits h
  have nonempty := decimalDigits_ne_nil n
  cases e with
  | ofNat k =>
    left
    rw [positional, List.head?_append_of_ne_nil _ nonempty]
    exact leading
  | negSucc k =>
    simp only [positional] at leading ⊢
    split
    next short =>
      left
      have taken : (decimalDigits n).take ((decimalDigits n).length - (k + 1)) ≠ [] :=
        List.ne_nil_of_length_pos (by rw [List.length_take]; omega)
      rw [List.head?_append_of_ne_nil _ taken, List.head?_take, if_neg (by omega)]
      exact leading
    next long => exact .inr ⟨_, rfl⟩

/-! ## Numerals -/

/-- The text does not go on with what could be part of a numeral. -/
def Ends (rest : List Char) : Prop :=
  ∀ c ∈ rest.head?, c.isDigit = false ∧ c ≠ '.' ∧ c ≠ 'e' ∧ c ≠ 'E'

theorem Ends.nil : Ends [] := by rintro c ⟨⟩

theorem Ends.cons {c : Char} (h : c ∈ [',', ']', '\x7d', '\n']) (rest : List Char) :
    Ends (c :: rest) := by
  rintro d ⟨⟩
  simp only [List.mem_cons, List.not_mem_nil, or_false] at h
  rcases h with rfl | rfl | rfl | rfl <;> decide

namespace JsonNumeral

/-- A numeral of the grammar: digits only, at least one before the point and none needless
in front of them, and at least one in an exponent. -/
structure Grammatical (n : JsonNumeral) : Prop where
  nonempty : n.whole ≠ []
  whole_digits : ∀ c ∈ n.whole, c.isDigit = true
  leading : n.whole.head? = some '0' → n.whole.length = 1
  fraction_digits : ∀ c ∈ n.fraction, c.isDigit = true
  exponent_nonempty : ∀ e ∈ n.exponent, e.2 ≠ []
  exponent_digits : ∀ e ∈ n.exponent, ∀ c ∈ e.2, c.isDigit = true

/-- An exponent as it is written, before `rest`. -/
def exponentText : Option (Bool × List Char) → List Char → List Char
  | none, rest => rest
  | some (negative, digits), rest => 'e' :: (if negative then '-' else '+') :: (digits ++ rest)

/-- A fraction as it is written, before `rest`. -/
def fractionText (fraction rest : List Char) : List Char :=
  if fraction.isEmpty then rest else '.' :: (fraction ++ rest)

/-- A numeral without its sign as it is written, before `rest`. -/
def unsignedText (n : JsonNumeral) (rest : List Char) : List Char :=
  n.whole ++ fractionText n.fraction (exponentText n.exponent rest)

theorem write_eq (n : JsonNumeral) (rest : List Char) :
    n.write rest = signed n.negative (n.unsignedText rest) := by
  obtain ⟨negative, whole, fraction, _ | ⟨below, digits⟩⟩ := n <;> rfl

theorem write_append (n : JsonNumeral) (rest more : List Char) :
    n.write (rest ++ more) = n.write rest ++ more := by
  have exponent : exponentText n.exponent (rest ++ more) =
      exponentText n.exponent rest ++ more := by
    rcases n.exponent with _ | ⟨negative, digits⟩ <;> simp [exponentText]
  have fraction (text : List Char) : fractionText n.fraction (text ++ more) =
      fractionText n.fraction text ++ more := by
    rw [fractionText, fractionText]
    split <;> simp
  simp only [write_eq, unsignedText, exponent, fraction, ← List.append_assoc]
  cases n.negative <;> rfl

theorem Grammatical.length_lt {n : JsonNumeral} (h : n.Grammatical) (rest : List Char) :
    rest.length < (n.unsignedText rest).length := by
  have nonempty := List.length_pos_iff.2 h.nonempty
  have exponent : rest.length ≤ (exponentText n.exponent rest).length := by
    rcases n.exponent with _ | ⟨negative, digits⟩ <;> simp [exponentText]; omega
  have fraction : (exponentText n.exponent rest).length ≤
      (fractionText n.fraction (exponentText n.exponent rest)).length := by
    rw [fractionText]
    split <;> simp
    omega
  rw [unsignedText, List.length_append]
  omega

section reading

open JsonTree

variable {rest : List Char} (ends : Ends rest)
include ends

theorem exponentText_head (exponent : Option (Bool × List Char)) :
    ∀ c ∈ (exponentText exponent rest).head?, c.isDigit = false ∧ c ≠ '.' := by
  obtain _ | ⟨negative, ds⟩ := exponent
  · exact fun c hc => ⟨(ends c hc).1, (ends c hc).2.1⟩
  · rintro c ⟨⟩
    decide

theorem readJsonExponent_text {exponent : Option (Bool × List Char)}
    (nonempty : ∀ e ∈ exponent, e.2 ≠ []) (digits : ∀ e ∈ exponent, ∀ c ∈ e.2, c.isDigit = true) :
    readJsonExponent (exponentText exponent rest) = some (exponent, rest) := by
  obtain _ | ⟨negative, ds⟩ := exponent
  · cases rest with
    | nil => rfl
    | cons c rest =>
      obtain ⟨-, -, lower, upper⟩ := ends c rfl
      exact if_neg (not_or.2 ⟨lower, upper⟩)
  · obtain ⟨taken, left⟩ :=
      Prod.mk.inj (spanDigits_append (digits _ rfl) fun c hc => (ends c hc).1)
    have some_digit : ds ≠ [] := nonempty _ rfl
    cases negative <;> simp [readJsonExponent, exponentText, taken, left, some_digit]

/-- **A numeral is read as it was written**, its sign apart. -/
theorem Grammatical.reads {n : JsonNumeral} (h : n.Grammatical) :
    readJsonNumeral n.negative (n.unsignedText rest) = some (n, rest) := by
  obtain ⟨negative, whole, fraction, exponent⟩ := n
  obtain ⟨nonempty, whole_digits, leading, fraction_digits, exponent_nonempty, exponent_digits⟩ := h
  have exponent_read := readJsonExponent_text ends exponent_nonempty exponent_digits
  have head := exponentText_head ends exponent
  simp only [unsignedText] at nonempty whole_digits leading fraction_digits exponent_read ⊢
  generalize exponentText exponent rest = text at exponent_read head ⊢
  have stop : ∀ c ∈ (fractionText fraction text).head?, c.isDigit = false := by
    rw [fractionText]
    split
    · exact fun c hc => (head c hc).1
    · rintro c ⟨⟩
      decide
  obtain ⟨taken, left⟩ := Prod.mk.inj (spanDigits_append whole_digits stop)
  have allowed : (whole.isEmpty || (whole.head? == some '0' && whole.length != 1)) = false := by
    simpa [nonempty] using leading
  simp only [readJsonNumeral, taken, left, allowed, Bool.false_eq_true, if_false]
  rcases eq_or_ne fraction [] with rfl | some_digit
  · have no_point : ∀ cs, text ≠ '.' :: cs := by
      rintro cs rfl
      exact (head '.' rfl).2 rfl
    simp [fractionText, exponent_read]
  · obtain ⟨taken, left⟩ :=
      Prod.mk.inj (spanDigits_append fraction_digits fun c hc => (head c hc).1)
    simp [fractionText, some_digit, taken, left, exponent_read]

end reading

/-! ## Numerals of numbers -/

theorem grammatical_ofDecimal {d : Decimal} (h : 0 < d.digits) (negative : Bool) :
    (ofDecimal negative d).Grammatical := by
  have digits := isDigit_of_mem_decimalDigits
  have nonempty := decimalDigits_ne_nil
  rw [ofDecimal]
  split
  next far =>
    exact
      { nonempty := by simp [nonempty]
        whole_digits := fun c hc => digits _ c (List.mem_of_mem_take hc)
        leading := fun _ => by
          rw [List.length_take, Nat.min_eq_left (List.length_pos_iff.2 (nonempty _))]
        fraction_digits := fun c hc => digits _ c (List.mem_of_mem_drop hc)
        exponent_nonempty := by rintro _ ⟨⟩; exact nonempty _
        exponent_digits := by rintro _ ⟨⟩; exact digits _ }
  next near =>
    obtain ⟨p, written, -⟩ := d.positional_eq
    obtain ⟨whole, fraction⟩ := p.split_text
    have leading : p.whole.head? = some '0' → p.whole.length = 1 := by
      intro zero
      rw [← whole, ← written] at zero ⊢
      rcases d.head?_positional h with other | ⟨cs, point⟩
      · rw [List.head?_takeWhile, Option.filter_eq_some_iff] at zero
        exact absurd zero.1 other
      · rw [point]
        rfl
    simp only [written, whole, fraction]
    exact
      { nonempty := p.nonempty
        whole_digits := p.whole_digits
        leading := leading
        fraction_digits := by
          split
          · exact isDigit_of_mem_zeros 1
          · exact p.fraction_digits
        exponent_nonempty := nofun
        exponent_digits := nofun }

/-- The numeral of a number is one of the grammar. -/
theorem grammatical_ofBinary64? {x : Float} {n : JsonNumeral}
    (h : ofBinary64? (.ofFloat x) = some n) : n.Grammatical := by
  cases decoded : Binary64.ofFloat x with
  | nan => simp [decoded, ofBinary64?] at h
  | infinite negative => simp [decoded, ofBinary64?] at h
  | finite negative m e =>
    rw [decoded, ofBinary64?, Option.some.injEq] at h
    subst h
    split
    next zero =>
      exact ⟨List.cons_ne_nil _ _, isDigit_of_mem_zeros 1, fun _ => rfl, isDigit_of_mem_zeros 1,
        nofun, nofun⟩
    next positive =>
      have owned := shortestDecimal_owns (Binary64.toFloat_ofFloat decoded).1
        (Nat.pos_of_ne_zero positive) .even
      refine grammatical_ofDecimal (Nat.pos_of_ne_zero fun zero => ?_) negative
      have := owned.pos (Nat.pos_of_ne_zero positive)
      rw [Decimal.value, zero] at this
      simp at this

end JsonNumeral

end ScopeLisp
