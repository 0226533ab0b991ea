/-
ScopeLisp.Proofs.Number.ReadBack — a printed number reads back.

A finite number is printed as a plain numeral (`PlainNumeral`): digits with a point
only before a fraction, and maybe a minus sign. The decimal that it writes is one
that the number owns, exactly for whole numbers and by `shortestDecimal_owns` for
the others, and reading a decimal gives the number that owns it
(`nearestDecimal_eq`). Zero is printed without its sign, so what is read back equals
the number as numbers are compared (`formatChars_readsBack`).
-/
import Mathlib
import ScopeLisp.Number.Layout
import ScopeLisp.Number.Numeral
import ScopeLisp.Proofs.Number.Shortest

namespace ScopeLisp

/-! ## Bit patterns -/

namespace Binary64

/-- A bit pattern is put together from its sign, its exponent and its fraction. -/
theorem bits_eq {n : ℕ} (h : n < 2 ^ 64) :
    n = n % twoTo 52 + n / twoTo 52 % twoTo 11 * twoTo 52 +
      if decide (twoTo 63 ≤ n) then twoTo 63 else 0 := by
  change n = n % 2 ^ 52 + n / 2 ^ 52 % 2 ^ 11 * 2 ^ 52 + if decide (2 ^ 63 ≤ n) then 2 ^ 63 else 0
  by_cases negative : 2 ^ 63 ≤ n
  · simp only [negative, decide_true, if_true]
    omega
  · simp only [negative, decide_false, Bool.false_eq_true, if_false]
    omega

/-- The `Float` of a finite number. -/
def toFloat (negative : Bool) (m : ℕ) (e : ℤ) : Float :=
  Float.ofBits (UInt64.ofNat (encode m e + if negative then twoTo 63 else 0))

/-- What is read off the bit pattern of a finite number encodes it. -/
theorem ofBits_eq_finite {bits : UInt64} {negative : Bool} {m : ℕ} {e : ℤ}
    (h : ofBits bits = .finite negative m e) :
    Canonical m e ∧ bits.toNat = encode m e + if negative then twoTo 63 else 0 := by
  have parts := bits_eq bits.toNat_lt
  have fraction : bits.toNat % twoTo 52 < twoTo 52 := Nat.mod_lt _ (twoTo_pos 52)
  have biased : bits.toNat / twoTo 52 % twoTo 11 < 2 ^ 11 := Nat.mod_lt _ (twoTo_pos 11)
  simp only [ofBits] at h
  generalize bits.toNat % twoTo 52 = f at *
  generalize bits.toNat / twoTo 52 % twoTo 11 = b at *
  generalize decide (twoTo 63 ≤ bits.toNat) = sign at *
  simp only [twoTo_eq] at h parts fraction ⊢
  split at h
  · split at h <;> cases h
  · split at h <;> obtain ⟨rfl, rfl, rfl⟩ := Binary64.finite.inj h
    · refine ⟨⟨by omega, by omega, by omega, .inr rfl⟩, ?_⟩
      rw [encode, if_pos fraction]
      omega
    · refine ⟨⟨by omega, by omega, by omega, .inl (by omega)⟩, ?_⟩
      rw [encode, if_neg (by omega)]
      omega

theorem toFloat_ofFloat {x : Float} {negative : Bool} {m : ℕ} {e : ℤ}
    (h : ofFloat x = .finite negative m e) : Canonical m e ∧ toFloat negative m e = x := by
  obtain ⟨canonical, bits⟩ := ofBits_eq_finite h
  exact ⟨canonical, by rw [toFloat, ← bits, UInt64.ofNat_toNat, Float.ofBits_toBits]⟩

open Float.Model.UnpackedFloat in
/-- The exponent field of what is not finite has all its bits set. -/
theorem unpackExponent_eq_iff (x : Float) :
    @unpackExponent .binary64 x.toBits.toBitVec = -1#_ ↔
      x.toBits.toNat / twoTo 52 % twoTo 11 = 2047 := by
  rw [unpackExponent_def, ← BitVec.toNat_inj, BitVec.extractLsb'_toNat,
    Nat.shiftRight_eq_div_pow]
  rfl

open Float.Model.UnpackedFloat in
theorem ofFloat_of_isFinite {x : Float} (h : x.isFinite = true) :
    ∃ negative m e, ofFloat x = .finite negative m e := by
  have top : x.toBits.toNat / twoTo 52 % twoTo 11 ≠ 2047 := by
    intro all
    have special : x.isFinite = (unpack .binary64 x.toBits.toBitVec).isFinite := rfl
    rw [special, unpack] at h
    simp only [(unpackExponent_eq_iff x).2 all, if_true] at h
    split at h <;> cases h
  simp only [ofFloat, ofBits, if_neg top]
  split <;> exact ⟨_, _, _, rfl⟩

open Float.Model.UnpackedFloat in
theorem isFinite_of_ofFloat {x : Float} {negative : Bool} {m : ℕ} {e : ℤ}
    (h : ofFloat x = .finite negative m e) : x.isFinite = true := by
  have top : @unpackExponent .binary64 x.toBits.toBitVec ≠ -1#_ := by
    intro all
    rw [ofFloat, ofBits, if_pos ((unpackExponent_eq_iff x).1 all)] at h
    split at h <;> cases h
  have special : x.isFinite = (unpack .binary64 x.toBits.toBitVec).isFinite := rfl
  rw [special, unpack]
  simp only [top, if_false]
  split
  · split <;> rfl
  · rfl

/-! ## What a number owns -/

variable {m n places : ℕ} {e : ℤ} {x : ℚ}

/-- What a number other than zero owns is at least half of the least number. -/
theorem Owns.least (owns : Owns m e x) (h : Canonical m e) (positive : 0 < m) :
    (2 : ℚ) ^ (-1075 : ℤ) ≤ x := by
  have one_le : (1 : ℚ) ≤ m := by exact_mod_cast positive
  have half := below_le m e
  have half_unit : -1075 ≤ -1 + e := by linarith [h.least]
  calc (2 : ℚ) ^ (-1075 : ℤ) ≤ 2 ^ (-1 + e) := zpow_le_zpow_right₀ one_le_two half_unit
    _ = 1 / 2 * 2 ^ e := by rw [zpow_add₀ two_ne_zero, zpow_neg_one, one_div]
    _ ≤ (m - below m e) * 2 ^ e := mul_le_mul_of_nonneg_right (by linarith) (by positivity)
    _ ≤ x := owns.low

/-- A decimal that a number other than zero owns is not so far below the least number
that reading gives up on it. -/
theorem Owns.log2_ge (owns : Owns m e (n * 10 ^ (-places : ℤ))) (h : Canonical m e)
    (positive : 0 < m) : -400 ≤ (n.log2 : ℤ) + -places := by
  by_contra small
  have digits : (n : ℚ) < 2 ^ (n.log2 + 1 : ℤ) := by exact_mod_cast Nat.lt_log2_self
  have scale : (10 : ℚ) ^ (-places : ℤ) ≤ 2 ^ (-(3 * places) : ℤ) := by
    rw [zpow_neg, zpow_neg, zpow_mul, zpow_natCast]
    exact inv_anti₀ (by positivity) (pow_le_pow_left₀ (by norm_num) (by norm_num) _)
  have less_than_self : (2 : ℚ) ^ (-1075 : ℤ) < 2 ^ (-1075 : ℤ) :=
    calc (2 : ℚ) ^ (-1075 : ℤ) ≤ n * 10 ^ (-places : ℤ) := owns.least h positive
      _ ≤ n * 2 ^ (-(3 * places) : ℤ) := mul_le_mul_of_nonneg_left scale (Nat.cast_nonneg n)
      _ < 2 ^ (n.log2 + 1 : ℤ) * 2 ^ (-(3 * places) : ℤ) :=
        mul_lt_mul_of_pos_right digits (by positivity)
      _ = 2 ^ (n.log2 + 1 + -(3 * places) : ℤ) := (zpow_add₀ two_ne_zero _ _).symm
      _ ≤ 2 ^ (-1075 : ℤ) := zpow_le_zpow_right₀ one_le_two (by omega)
  exact lt_irrefl _ less_than_self

end Binary64

open Binary64

/-- A decimal is read as the number that owns it. -/
theorem nearestDecimal_eq {m n places : ℕ} {e : ℤ} (h : Canonical m e) (positive : 0 < m)
    (owns : Owns m e (n * 10 ^ (-places : ℤ))) (negative : Bool) :
    nearestDecimal negative n (-places) = toFloat negative m e := by
  have large := owns.log2_ge h positive
  have some_digit : n ≠ 0 := by
    rintro rfl
    have := owns.pos positive
    simp at this
  have near : ∀ {den : ℕ}, 0 < den → (n * 10 ^ (-places : ℤ) : ℚ) = n / den →
      nearestFloat negative n den = toFloat negative m e := by
    intro den hden same
    rw [same] at owns
    rw [nearestFloat, nearestBits_eq h positive hden owns, toFloat]
  unfold nearestDecimal
  rw [if_neg (by omega), if_neg (by omega)]
  cases places with
  | zero =>
    exact (congrArg (nearestFloat negative · 1) (Nat.mul_one n)).trans
      (near Nat.one_pos (by simp))
  | succ k =>
    refine near (tenTo_pos (k + 1)) ?_
    rw [zpow_neg, zpow_natCast, ← div_eq_mul_inv, tenTo_eq, Nat.cast_pow]
    rfl

/-! ## Digits -/

theorem ofDigits_append (n : ℕ) (ds es : List Char) :
    ofDigits n (ds ++ es) = ofDigits (ofDigits n ds) es := List.foldl_append ..

theorem ofDigits_decimalDigits (n : ℕ) : ofDigits 0 (decimalDigits n) = n :=
  Nat.ofDigitChars_ten_toDigits

theorem ofDigits_zeros (n k : ℕ) : ofDigits n (List.replicate k '0') = 10 ^ k * n :=
  Nat.ofDigitChars_replicate_zero

theorem decimalDigits_ne_nil (n : ℕ) : decimalDigits n ≠ [] := Nat.toDigits_ne_nil

theorem isDigit_of_mem_decimalDigits (n : ℕ) : ∀ c ∈ decimalDigits n, c.isDigit = true :=
  fun _ h => Nat.isDigit_of_mem_toDigits (by decide) (by decide) h

theorem isDigit_of_mem_zeros (k : ℕ) : ∀ c ∈ List.replicate k '0', c.isDigit = true :=
  fun _ h => List.eq_of_mem_replicate h ▸ rfl

theorem toLower_of_isDigit {d : Char} (digit : d.isDigit = true) : d.toLower = d := by
  rw [Char.toLower, dif_neg]
  simp only [Char.isDigit, Bool.and_eq_true, decide_eq_true_eq, ge_iff_le, not_and,
    UInt32.le_iff_toNat_le] at digit ⊢
  intro upper
  exact absurd (upper.trans digit.2) (by decide)

theorem spanDigits_digits {ds : List Char} (h : ∀ c ∈ ds, c.isDigit = true) :
    spanDigits ds = (ds, []) := by
  simpa [spanDigits] using h

theorem spanDigits_point {ds : List Char} (h : ∀ c ∈ ds, c.isDigit = true) (rest : List Char) :
    spanDigits (ds ++ '.' :: rest) = (ds, '.' :: rest) := by
  rw [spanDigits, List.takeWhile_append_of_pos h, List.dropWhile_append_of_pos h]
  simp

/-! ## Plain numerals -/

/-- A numeral without sign and exponent: digits, at least one, and digits after a
point. -/
structure PlainNumeral where
  whole : List Char
  fraction : List Char
  nonempty : whole ≠ []
  whole_digits : ∀ c ∈ whole, c.isDigit = true
  fraction_digits : ∀ c ∈ fraction, c.isDigit = true

namespace PlainNumeral

/-- The numeral as it is written, with a point only before a fraction. -/
def text (p : PlainNumeral) : List Char :=
  if p.fraction = [] then p.whole else p.whole ++ '.' :: p.fraction

/-- All its digits as one number. -/
def digits (p : PlainNumeral) : ℕ := ofDigits 0 (p.whole ++ p.fraction)

/-- What the numeral stands for. -/
def value (p : PlainNumeral) : ℚ := p.digits * 10 ^ (-p.fraction.length : ℤ)

theorem text_eq_cons (p : PlainNumeral) : ∃ d ds, p.text = d :: ds ∧ d.isDigit = true := by
  obtain ⟨d, ds, whole⟩ := List.exists_cons_of_ne_nil p.nonempty
  have digit : d.isDigit = true := p.whole_digits d (whole ▸ List.mem_cons_self)
  rw [text, whole]
  split
  · exact ⟨d, ds, rfl, digit⟩
  · exact ⟨d, _, rfl, digit⟩

theorem readUnsigned_text (p : PlainNumeral) (negative : Bool) :
    readUnsigned negative p.text =
      some (nearestDecimal negative p.digits (-p.fraction.length)) := by
  obtain ⟨whole, fraction, nonempty, whole_digits, fraction_digits⟩ := p
  simp only [text, digits, ofDigits_append]
  split
  next no_fraction =>
    subst no_fraction
    simp [readUnsigned, spanDigits_digits whole_digits, nonempty, readExponent]
  next some_fraction =>
    simp [readUnsigned, spanDigits_point whole_digits, spanDigits_digits fraction_digits, nonempty,
      readExponent]

/-- No numeral that starts with a digit is a word. -/
theorem readNumeral_text (p : PlainNumeral) (negative : Bool) :
    readNumeral (String.ofList (signed negative p.text)) =
      some (nearestDecimal negative p.digits (-p.fraction.length)) := by
  obtain ⟨d, ds, text, digit⟩ := p.text_eq_cons
  have not_digit : ∀ {c : Char}, c.isDigit = false → d ≠ c := by
    rintro c other rfl
    rw [digit] at other
    cases other
  have no_word : ∀ (c : Char) (word : List Char), c.isDigit = false →
      String.ofList ((d :: ds).map Char.toLower) ≠ String.ofList (c :: word) := by
    intro c word other same
    rw [String.ofList_inj, List.map_cons, toLower_of_isDigit digit] at same
    exact not_digit other (List.cons.inj same).1
  have inf : String.ofList ((d :: ds).map Char.toLower) ≠ "inf" := no_word 'i' _ rfl
  have infinity : String.ofList ((d :: ds).map Char.toLower) ≠ "infinity" := no_word 'i' _ rfl
  have nan : String.ofList ((d :: ds).map Char.toLower) ≠ "nan" := no_word 'n' _ rfl
  rw [← p.readUnsigned_text, text]
  cases negative with
  | true =>
    simp only [readNumeral, signed, String.toList_ofList, if_true, inf, infinity, nan, or_self,
      if_false]
  | false =>
    have minus : d ≠ '-' := not_digit rfl
    have plus : d ≠ '+' := not_digit rfl
    simp [readNumeral, signed, minus, plus, inf, infinity, nan, -List.map_cons]

end PlainNumeral

/-! ## How numbers are written -/

theorem decimalDigits_eq (n : ℕ) : ∃ p : PlainNumeral, decimalDigits n = p.text ∧ p.value = n := by
  refine ⟨⟨decimalDigits n, [], decimalDigits_ne_nil n, isDigit_of_mem_decimalDigits n, nofun⟩,
    rfl, ?_⟩
  simp [PlainNumeral.value, PlainNumeral.digits, ofDigits_decimalDigits]

theorem Decimal.positional_eq (d : Decimal) :
    ∃ p : PlainNumeral, d.positional = p.text ∧ p.value = d.value := by
  obtain ⟨n, e⟩ := d
  have number := ofDigits_decimalDigits n
  have nonempty := decimalDigits_ne_nil n
  have digits := isDigit_of_mem_decimalDigits n
  cases e with
  | ofNat k =>
    refine ⟨⟨decimalDigits n ++ List.replicate k '0', [], by simp [nonempty],
      List.forall_mem_append.2 ⟨digits, isDigit_of_mem_zeros k⟩, nofun⟩, rfl, ?_⟩
    simp [PlainNumeral.value, PlainNumeral.digits, ofDigits_append, number, ofDigits_zeros, value,
      mul_comm]
  | negSucc k =>
    have value_eq : (Decimal.mk n (.negSucc k)).value = n * 10 ^ (-(k + 1 : ℕ) : ℤ) := rfl
    simp only [positional, value_eq]
    generalize decimalDigits n = ds at *
    split
    next short =>
      -- The point stands among the digits.
      have whole : ds.take (ds.length - (k + 1)) ≠ [] :=
        List.ne_nil_of_length_pos (by rw [List.length_take]; omega)
      have places : (ds.drop (ds.length - (k + 1))).length = k + 1 := by
        rw [List.length_drop]
        omega
      refine ⟨⟨ds.take (ds.length - (k + 1)), ds.drop (ds.length - (k + 1)), whole,
        fun c hc => digits c (List.mem_of_mem_take hc),
        fun c hc => digits c (List.mem_of_mem_drop hc)⟩, ?_, ?_⟩
      · exact (if_neg (List.ne_nil_of_length_eq_add_one places)).symm
      · simp only [PlainNumeral.value, PlainNumeral.digits, List.take_append_drop, number, places]
    next long =>
      -- Zeros stand before the digits.
      have places : (List.replicate (k + 1 - ds.length) '0' ++ ds).length = k + 1 := by
        rw [List.length_append, List.length_replicate]
        omega
      have no_more : ofDigits 0 (['0'] ++ (List.replicate (k + 1 - ds.length) '0' ++ ds)) = n := by
        rw [ofDigits_append, ofDigits_append, ofDigits_zeros]
        exact number
      refine ⟨⟨['0'], List.replicate (k + 1 - ds.length) '0' ++ ds, List.cons_ne_nil _ _,
        isDigit_of_mem_zeros 1, List.forall_mem_append.2 ⟨isDigit_of_mem_zeros _, digits⟩⟩, ?_, ?_⟩
      · exact (if_neg (List.append_ne_nil_of_right_ne_nil _ nonempty)).symm
      · simp only [PlainNumeral.value, PlainNumeral.digits, no_more, places]

/-! ## Integers -/

section Integers

variable {m n : ℕ} {e : ℤ}

theorem scaleByTwo_eq_iff :
    (scaleByTwo m 1 e).1 = n * (scaleByTwo m 1 e).2 ↔ (n : ℚ) = m * 2 ^ e := by
  have positive : 0 < (scaleByTwo m 1 e).2 := scaleByTwo_den_pos Nat.one_pos e
  have scaled := ratio_scaleByTwo m 1 e
  rw [ratio, Nat.cast_one, div_one] at scaled
  rw [← scaled, eq_div_iff (by exact_mod_cast positive.ne'), ← Nat.cast_mul, Nat.cast_inj]
  exact eq_comm

theorem Binary64.isWhole_iff {negative : Bool} :
    (Binary64.finite negative m e).isWhole ↔ ∃ n : ℕ, (n : ℚ) = m * 2 ^ e := by
  simp only [isWhole, beq_iff_eq, ← Nat.dvd_iff_mod_eq_zero, ← scaleByTwo_eq_iff,
    dvd_iff_exists_eq_mul_left]

theorem Binary64.isBelow_iff (whole : (n : ℚ) = m * 2 ^ e) {negative : Bool} {bound : ℕ} :
    (Binary64.finite negative m e).isBelow bound ↔ n < bound := by
  have positive : 0 < (scaleByTwo m 1 e).2 := scaleByTwo_den_pos Nat.one_pos e
  simp only [isBelow, decide_eq_true_eq, scaleByTwo_eq_iff.2 whole, Nat.mul_lt_mul_right positive]

/-- A whole number below `10 ^ 15` is converted exactly. -/
theorem Binary64.toInt64_whole (negative : Bool) (whole : (n : ℚ) = m * 2 ^ e)
    (small : n < 10 ^ 15) :
    (toInt64 (.finite negative m e)).toInt = if negative then -(n : ℤ) else n := by
  have positive : 0 < (scaleByTwo m 1 e).2 := scaleByTwo_den_pos Nat.one_pos e
  have magnitude : (scaleByTwo m 1 e).1 / (scaleByTwo m 1 e).2 = n := by
    rw [scaleByTwo_eq_iff.2 whole, Nat.mul_div_cancel n positive]
  have least : Int64.minValue.toInt = -2 ^ 63 := rfl
  have greatest : Int64.maxValue.toInt = 2 ^ 63 - 1 := rfl
  simp only [toInt64, magnitude]
  refine Int64.toInt_ofIntClamp ?_ ?_ <;> split_ifs <;> omega

/-- An integer is written with a minus sign if it is negative. -/
theorem toList_toString_int (negative : Bool) (n : ℕ) :
    (toString (if negative then -(n : ℤ) else n)).toList =
      signed (negative && n != 0) (decimalDigits n) := by
  rw [Int.toString_eq_repr, Int.repr_eq_if]
  cases negative with
  | false => simp [signed, decimalDigits]
  | true =>
    rcases Nat.eq_zero_or_pos n with rfl | positive
    · simp [signed, decimalDigits]
    · have below : ¬ (0 : ℤ) ≤ -n := by omega
      simp [signed, decimalDigits, below, positive.ne']

/-! ## The printed form -/

/-- A whole number below `10 ^ 15` is printed as an integer. -/
theorem formatChars_whole (negative : Bool) (whole : (n : ℚ) = m * 2 ^ e) (small : n < 10 ^ 15) :
    formatChars (.finite negative m e) = signed (negative && n != 0) (decimalDigits n) := by
  have below : (Binary64.finite negative m e).isBelow (tenTo 15) :=
    (Binary64.isBelow_iff whole).2 small
  rw [formatChars, Binary64.isWhole_iff.2 ⟨n, whole⟩, below, Bool.and_self, if_pos rfl,
    ← toList_toString_int, ← Binary64.toInt64_whole negative whole small]
  rfl

/-- Another number is printed positionally. -/
theorem formatChars_other (negative : Bool)
    (other : ∀ n : ℕ, (n : ℚ) = m * 2 ^ e → ¬ n < 10 ^ 15) :
    formatChars (.finite negative m e) = positionalNumber (.finite negative m e) := by
  refine if_neg fun short => ?_
  obtain ⟨whole, below⟩ := Bool.and_eq_true_iff.1 short
  obtain ⟨n, whole⟩ := Binary64.isWhole_iff.1 whole
  exact other n whole ((Binary64.isBelow_iff whole).1 below)

theorem formatChars_zero (negative : Bool) (e : ℤ) :
    formatChars (.finite negative 0 e) = ['0'] := by
  rw [formatChars_whole (n := 0) negative (by simp) (by norm_num), bne_self_eq_false,
    Bool.and_false]
  rfl

/-- A number other than zero is printed with its sign, as a decimal that it owns. -/
theorem formatChars_eq (h : Canonical m e) (positive : 0 < m) (negative : Bool) :
    ∃ p : PlainNumeral, formatChars (.finite negative m e) = signed negative p.text ∧
      Owns m e p.value := by
  by_cases short : ∃ n : ℕ, (n : ℚ) = m * 2 ^ e ∧ n < 10 ^ 15
  · obtain ⟨n, whole, small⟩ := short
    obtain ⟨p, written, value⟩ := decimalDigits_eq n
    have nonzero : n ≠ 0 := by
      have : (0 : ℚ) < n := whole ▸ (owns_self m e).pos positive
      exact_mod_cast this.ne'
    refine ⟨p, ?_, ?_⟩
    · rw [formatChars_whole negative whole small, written, bne_iff_ne.2 nonzero, Bool.and_true]
    · rw [value, whole]
      exact owns_self m e
  · obtain ⟨p, written, value⟩ := (shortestDecimal .up m e).positional_eq
    refine ⟨p, ?_, value ▸ shortestDecimal_owns h positive .up⟩
    rw [formatChars_other negative fun n whole small => short ⟨n, whole, small⟩,
      positionalNumber, if_neg positive.ne', written]

end Integers

/-- **A printed number reads back.** A finite number is printed as a plain numeral,
with a minus sign or without one, and what is read back equals the number. -/
theorem formatChars_readsBack {x : Float} (h : x.isFinite = true) :
    ∃ (negative : Bool) (p : PlainNumeral),
      formatChars (.ofFloat x) = signed negative p.text ∧
        ∃ y, readNumeral (formatNumber x) = some y ∧ (y == x) = true := by
  obtain ⟨negative, m, e, decoded⟩ := ofFloat_of_isFinite h
  obtain ⟨canonical, rfl⟩ := toFloat_ofFloat decoded
  rw [formatNumber, decoded]
  rcases Nat.eq_zero_or_pos m with rfl | positive
  · obtain rfl : e = -1074 := canonical.normal.resolve_left (by decide)
    let p : PlainNumeral := ⟨['0'], [], List.cons_ne_nil _ _, isDigit_of_mem_zeros 1, nofun⟩
    have written : formatChars (.finite negative 0 (-1074)) = signed false p.text :=
      formatChars_zero negative _
    refine ⟨false, p, written, toFloat false 0 (-1074), ?_, by cases negative <;> decide⟩
    rw [written, p.readNumeral_text]
    rfl
  · obtain ⟨p, written, owns⟩ := formatChars_eq canonical positive negative
    refine ⟨negative, p, written, toFloat negative m e, ?_, ?_⟩
    · rw [written, p.readNumeral_text, nearestDecimal_eq canonical positive owns]
    · refine Float.beq_self_iff.2 fun nan => ?_
      rw [nan] at h
      exact absurd h (by decide)

end ScopeLisp
