/-
ScopeLisp.Proofs.Number.Printing — how every number is printed.

A number is printed as the decimal that has the fewest digits of those that read back,
without an exponent (`Displayed`). That whole numbers below `10 ^ 15` are taken apart as
integers makes no difference but for the sign of zero (`formatNumber_exact`): such a
number is the only integer that it owns, so its shortest decimal is itself, with its
zeros left to the exponent (`shortestDecimal_whole`).

To own a decimal is to be what is read from it (`nearestDecimal_eq_iff`).
-/
import ScopeLisp.Proofs.Number.Fewest
import ScopeLisp.Proofs.Number.ReadBack

namespace ScopeLisp

open Binary64

/-! ## What is read from a decimal -/

open Float.Model.UnpackedFloat in
/-- A bit pattern up to that of infinity is that of its number. -/
theorem Binary64.toBits_ofBits {bits : UInt64} (h : bits.toNat % 2 ^ 63 ≤ 2047 * 2 ^ 52) :
    (Float.ofBits bits).toBits = bits := by
  have valid : Float.Model.Format.binary64.Valid bits.toBitVec := by
    refine ⟨fun exponent mantissa => absurd ?_ mantissa⟩
    rw [unpackExponent_def] at exponent
    rw [unpackMantissa_def]
    have exponent : bits.toNat / 2 ^ 52 % 2 ^ 11 = 2047 := by
      have := congrArg BitVec.toNat exponent
      rwa [BitVec.extractLsb'_toNat, Nat.shiftRight_eq_div_pow] at this
    apply BitVec.eq_of_toNat_eq
    rw [BitVec.extractLsb'_toNat, Nat.shiftRight_zero]
    change bits.toNat % 2 ^ 52 = 0
    omega
  have packed : pack .binary64 (unpack .binary64 bits.toBitVec) = bits.toBitVec :=
    pack_unpack_of_valid valid
  exact congrArg UInt64.ofBitVec packed

theorem nearestBits_le (num den : ℕ) : nearestBits num den ≤ 2047 * 2 ^ 52 := by
  rw [nearestBits]
  split
  · exact Nat.zero_le _
  · exact min_le_right _ _

/-- Numbers are told apart by their bit patterns. -/
theorem nearestFloat_eq_iff {num den m : ℕ} {e : ℤ} (h : Canonical m e) (negative : Bool) :
    nearestFloat negative num den = toFloat negative m e ↔ nearestBits num den = encode m e := by
  have pattern : ∀ {n : ℕ}, n ≤ 2047 * 2 ^ 52 →
      (Float.ofBits (UInt64.ofNat (n + if negative then twoTo 63 else 0))).toBits.toNat =
        n + if negative then twoTo 63 else 0 := by
    intro n bound
    have sign : (if negative then twoTo 63 else 0) = 0 ∨
        (if negative then twoTo 63 else 0) = 2 ^ 63 := by
      cases negative
      · exact .inl rfl
      · exact .inr rfl
    generalize (if negative then twoTo 63 else 0) = s at sign
    have whole : (UInt64.ofNat (n + s)).toNat = n + s :=
      UInt64.toNat_ofNat_of_lt' (show n + s < 2 ^ 64 by omega)
    rw [toBits_ofBits (by rw [whole]; omega), whole]
  refine ⟨fun same => ?_, fun same => by rw [nearestFloat, toFloat, same]⟩
  have bits := congrArg (fun x : Float => x.toBits.toNat) same
  simp only [nearestFloat, toFloat, pattern (nearestBits_le num den),
    pattern h.encode_lt.le] at bits
  exact Nat.add_right_cancel bits

variable {m n : ℕ} {e E : ℤ}

theorem encode_ne_zero (h : Canonical m e) (positive : 0 < m) : encode m e ≠ 0 := by
  obtain ⟨-, least, -, -⟩ := h
  rw [encode]
  split_ifs <;> omega

/-- A ratio is rounded to a number exactly if the number owns it. -/
theorem nearestBits_eq_iff {num den : ℕ} (h : Canonical m e) (positive : 0 < m) (hnum : 0 < num)
    (hden : 0 < den) : nearestBits num den = encode m e ↔ Owns m e (num / den) :=
  ⟨owns_of_nearestBits h hnum hden, nearestBits_eq h positive hden⟩

/-- A number owns nothing from the first power of two on that is out of range. -/
theorem Binary64.Owns.lt_top {x : ℚ} (owns : Owns m e x) (h : Canonical m e) :
    x < 2 ^ (1024 : ℤ) := by
  have short : (m : ℚ) + 1 / 2 < 2 ^ (53 : ℤ) := by
    have : (m : ℚ) + 1 ≤ 2 ^ (53 : ℤ) := by exact_mod_cast h.mantissa
    linarith
  calc x ≤ (m + 1 / 2) * 2 ^ e := owns.high
    _ < 2 ^ (53 : ℤ) * 2 ^ e := mul_lt_mul_of_pos_right short (by positivity)
    _ ≤ 2 ^ (53 : ℤ) * 2 ^ (971 : ℤ) :=
      mul_le_mul_of_nonneg_left (zpow_le_zpow_right₀ one_le_two h.greatest) (by positivity)
    _ = 2 ^ (1024 : ℤ) := (zpow_add₀ two_ne_zero 53 971).symm

/-- A decimal is read as a number exactly if the number owns it. -/
theorem nearestDecimal_eq_iff (h : Canonical m e) (positive : 0 < m) (negative : Bool) :
    nearestDecimal negative n E = toFloat negative m e ↔ Owns m e (n * 10 ^ E) := by
  have encoded := encode_ne_zero h positive
  unfold nearestDecimal
  split_ifs with tiny huge
  · rw [nearestFloat_eq_iff h]
    refine iff_of_false (fun zero => encoded zero.symm) fun owns => ?_
    rcases tiny with rfl | tiny
    · simpa using owns.pos positive
    · obtain ⟨places, rfl⟩ : ∃ places : ℕ, E = -places := ⟨(-E).toNat, by omega⟩
      have := owns.log2_ge h positive
      omega
  · rw [nearestFloat_eq_iff h, nearestBits_eq_iff h positive (twoTo_pos 1024) Nat.one_pos]
    have top : ((twoTo 1024 : ℕ) / (1 : ℕ) : ℚ) = 2 ^ (1024 : ℤ) := by
      rw [Nat.cast_one, div_one, twoTo_eq, Nat.cast_pow, ← zpow_natCast]
      rfl
    refine iff_of_false (fun owns => lt_irrefl _ (top ▸ owns.lt_top h)) fun owns => ?_
    have one_le : (1 : ℚ) ≤ n := by
      have : n ≠ 0 := fun zero => tiny (.inl zero)
      exact_mod_cast Nat.one_le_iff_ne_zero.2 this
    have large : (2 : ℚ) ^ (1024 : ℤ) < 2 ^ (1024 : ℤ) :=
      calc (2 : ℚ) ^ (1024 : ℤ) ≤ 2 ^ (3 * 400 : ℤ) := zpow_le_zpow_right₀ one_le_two (by norm_num)
        _ = (2 ^ (3 : ℤ)) ^ (400 : ℤ) := zpow_mul 2 3 400
        _ ≤ 10 ^ (400 : ℤ) := zpow_le_zpow_left₀ (by norm_num) (by positivity) (by norm_num)
        _ ≤ 10 ^ E := zpow_le_zpow_right₀ (by norm_num) huge.le
        _ ≤ n * 10 ^ E := le_mul_of_one_le_left (by positivity) one_le
        _ < 2 ^ (1024 : ℤ) := owns.lt_top h
    exact lt_irrefl _ large
  · have some_digit : 0 < n := Nat.pos_of_ne_zero fun zero => tiny (.inl zero)
    cases E with
    | ofNat k =>
      rw [nearestFloat_eq_iff h,
        nearestBits_eq_iff h positive (Nat.mul_pos some_digit (tenTo_pos k)) Nat.one_pos]
      simp [tenTo_eq]
    | negSucc k =>
      rw [nearestFloat_eq_iff h, nearestBits_eq_iff h positive some_digit (tenTo_pos (k + 1))]
      simp [tenTo_eq, zpow_negSucc, div_eq_mul_inv]

/-! ## Whole numbers -/

/-- Zeros at the end are written out. -/
theorem decimalDigits_mul_pow (h : 0 < n) (k : ℕ) :
    decimalDigits (n * 10 ^ k) = decimalDigits n ++ List.replicate k '0' := by
  induction k with
  | zero => simp
  | succ k ih =>
    have positive : 0 < n * 10 ^ k := by positivity
    have last : Nat.toDigits 10 0 = ['0'] := rfl
    rw [List.replicate_succ', ← List.append_assoc, ← ih, ← last, decimalDigits, decimalDigits,
      Nat.toDigits_append_toDigits (by norm_num) positive (by norm_num)]
    congr 1
    ring

theorem Decimal.le_exponent_strip (d : Decimal) : d.exponent ≤ d.strip.exponent := by
  fun_induction strip d with
  | case1 d zeros ih => exact (Int.le_add_one le_rfl).trans ih
  | case2 => exact le_rfl

/-- A whole number below `10 ^ 15` owns no other whole number. -/
theorem Binary64.Owns.eq_whole {i : ℕ} (owns : Owns m e i) (h : Canonical m e)
    (whole : (n : ℚ) = m * 2 ^ e) (small : n < 10 ^ 15) : i = n := by
  have small : (n : ℚ) < 10 ^ 15 := by exact_mod_cast small
  have unit : (0 : ℚ) < 2 ^ e := by positivity
  have close : (2 : ℚ) ^ e < 1 / 4 := by
    rcases h.normal with full | least
    · have full : (2 ^ 52 : ℚ) * 2 ^ e ≤ m * 2 ^ e :=
        mul_le_mul_of_nonneg_right (by exact_mod_cast full) unit.le
      rw [← whole] at full
      linarith
    · rw [least]
      calc (2 : ℚ) ^ (-1074 : ℤ) < 2 ^ (-2 : ℤ) := zpow_lt_zpow_right₀ one_lt_two (by norm_num)
        _ = 1 / 4 := by norm_num
  have high := owns.high
  have low : (m - 1 / 2) * 2 ^ e ≤ (i : ℚ) :=
    (mul_le_mul_of_nonneg_right (by linarith [below_le m e]) unit.le).trans owns.low
  have upper : (i : ℚ) < n + 1 := by linarith
  have lower : (n : ℚ) < i + 1 := by linarith
  have upper : i < n + 1 := by exact_mod_cast upper
  have lower : n < i + 1 := by exact_mod_cast lower
  omega

open RoundingInterval in
/-- The shortest decimal of a whole number below `10 ^ 15` is the number itself. -/
theorem shortestDecimal_whole (h : Canonical m e) (positive : 0 < m) (whole : (n : ℚ) = m * 2 ^ e)
    (small : n < 10 ^ 15) :
    ∃ q k : ℕ, shortestDecimal .up m e = ⟨q, k⟩ ∧ n = q * 10 ^ k := by
  obtain ⟨k, d, -, found, shortest, none⟩ := shortestDecimal_eq_strip h positive .up
  have last := lt_pow_leading (value_pos positive (e := e)) (unit_pos m e)
  have owned := (holds_ofFinite positive).1 (holds_of_nearestOnGrid found)
  have exponent : d.exponent = (ofFinite m e).leading - k := by
    rcases nearestOnGrid_cases positive found with ⟨rfl, -⟩ | ⟨rfl, -⟩ <;> rfl
  rw [value_ofFinite, ← whole] at last
  generalize (ofFinite m e).leading = L at *
  have some_digit : 0 ≤ L := by
    have one_le : (1 : ℚ) ≤ n := by
      have : (0 : ℚ) < n := whole ▸ (owns_self m e).pos positive
      exact_mod_cast this
    have : (10 : ℚ) ^ (0 : ℤ) < 10 ^ (L + 1) := by
      rw [zpow_zero]
      exact one_le.trans_lt last
    have := (zpow_lt_zpow_iff_right₀ (by norm_num)).1 this
    omega
  have coarse : 0 ≤ d.exponent := by
    by_contra fine
    -- The number itself stands on the grid of units, which would have come before.
    have units := not_owns_of_nearestOnGrid positive (n := n) (none L.toNat (by omega))
    rw [show L - L.toNat = 0 by omega, zpow_zero, mul_one, whole] at units
    exact units (owns_self m e)
  obtain ⟨i, hi⟩ := Int.eq_ofNat_of_zero_le (coarse.trans d.le_exponent_strip)
  refine ⟨d.strip.digits, i, ?_, ?_⟩
  · rw [shortest, ← hi]
  · have value : d.value = (d.strip.digits * 10 ^ i : ℕ) := by
      rw [← d.value_strip, Decimal.value, hi]
      push_cast
      rfl
    rw [value] at owned
    exact (owned.eq_whole h whole small).symm

/-! ## The printed form -/

/-- How a decimal is laid out without an exponent. -/
inductive Decimal.LaidOut : Decimal → List Char → Prop
  /-- No fraction: zeros stand after the digits. -/
  | whole (n zeros : ℕ) :
    LaidOut ⟨n, zeros⟩ (Nat.toDigits 10 n ++ List.replicate zeros '0')
  /-- The point stands among the digits. -/
  | among {n : ℕ} {before after : List Char} (digits : Nat.toDigits 10 n = before ++ after)
    (some_before : before ≠ []) (some_after : after ≠ []) :
    LaidOut ⟨n, -after.length⟩ (before ++ '.' :: after)
  /-- The point stands before the digits, maybe with zeros between, and a zero before it. -/
  | fraction (n zeros : ℕ) :
    LaidOut ⟨n, -(zeros + (Nat.toDigits 10 n).length : ℕ)⟩
      ('0' :: '.' :: List.replicate zeros '0' ++ Nat.toDigits 10 n)

/-- How a number is displayed: by its shortest decimal, without an exponent. -/
inductive Displayed : Binary64 → List Char → Prop
  | nan : Displayed .nan ['N', 'a', 'N']
  | infinite : Displayed (.infinite false) ['i', 'n', 'f']
  | zero (e : ℤ) : Displayed (.finite false 0 e) ['0']
  | finite {m : ℕ} {e : ℤ} {d : Decimal} {text : List Char} (positive : 0 < m)
    (shortest : IsShortest m e d) (layout : d.LaidOut text) :
    Displayed (.finite false m e) text
  | negativeInfinite : Displayed (.infinite true) ['-', 'i', 'n', 'f']
  | negative {m : ℕ} {e : ℤ} {text : List Char} (magnitude : Displayed (.finite false m e) text) :
    Displayed (.finite true m e) ('-' :: text)

theorem Decimal.laidOut_positional (d : Decimal) : d.LaidOut d.positional := by
  obtain ⟨n, e⟩ := d
  cases e with
  | ofNat k => exact .whole n k
  | negSucc k =>
    simp only [positional]
    have digits : Nat.toDigits 10 n = decimalDigits n := rfl
    generalize decimalDigits n = ds at digits
    split
    next short =>
      have places : (ds.drop (ds.length - (k + 1))).length = k + 1 := by
        rw [List.length_drop, Nat.sub_sub_self short.le]
      have parts := (List.take_append_drop (ds.length - (k + 1)) ds).symm
      have laid := LaidOut.among (digits.trans parts)
        (List.ne_nil_of_length_pos (by rw [List.length_take]; omega))
        (List.ne_nil_of_length_eq_add_one places)
      rwa [places] at laid
    next long =>
      have laid := LaidOut.fraction n (k + 1 - ds.length)
      rwa [digits, Nat.sub_add_cancel (not_lt.1 long)] at laid

/-- There is no other layout. -/
theorem Decimal.LaidOut.eq_positional {d : Decimal} {text : List Char} (h : d.LaidOut text) :
    text = d.positional := by
  cases h with
  | whole n zeros => rfl
  | @among n before after digits some_before some_after =>
    obtain ⟨c, places, rfl⟩ := List.exists_cons_of_ne_nil some_after
    have digits : decimalDigits n = before ++ c :: places := digits
    have short : places.length + 1 < (before ++ c :: places).length := by
      have := List.length_pos_iff.2 some_before
      rw [List.length_append, List.length_cons]
      omega
    have point : (before ++ c :: places).length - (places.length + 1) = before.length := by
      rw [List.length_append, List.length_cons, Nat.add_sub_cancel]
    change _ = positional ⟨n, .negSucc places.length⟩
    simp only [positional, digits, if_pos short, point, List.take_left, List.drop_left]
  | fraction n zeros =>
    have some_digit := List.length_pos_iff.2 (decimalDigits_ne_nil n)
    obtain ⟨k, places⟩ : ∃ k, zeros + (decimalDigits n).length = k + 1 :=
      ⟨zeros + (decimalDigits n).length - 1, by omega⟩
    have zeros_eq : zeros = k + 1 - (decimalDigits n).length := by omega
    rw [← decimalDigits, places]
    change _ = positional ⟨n, .negSucc k⟩
    have long : ¬ k + 1 < (decimalDigits n).length := by omega
    simp only [positional, if_neg long, ← zeros_eq]

theorem displayed_finite_iff (h : Canonical m e) {text : List Char} :
    Displayed (.finite false m e) text ↔ text = positionalNumber (.finite false m e) := by
  constructor
  · rintro (- | - | - | ⟨positive, shortest, layout⟩)
    · rfl
    · rw [layout.eq_positional, positionalNumber, if_neg positive.ne',
        shortest.unique (isShortest_shortestDecimal h positive)]
      rfl
  · rintro rfl
    rcases Nat.eq_zero_or_pos m with rfl | positive
    · exact .zero e
    · rw [positionalNumber, if_neg positive.ne']
      exact .finite positive (isShortest_shortestDecimal h positive)
        (Decimal.laidOut_positional _)

/-- Positional numbers are displayed, and nothing else is. -/
theorem displayed_iff (x : Float) {text : List Char} :
    Displayed (.ofFloat x) text ↔ text = positionalNumber (.ofFloat x) := by
  cases decoded : Binary64.ofFloat x with
  | nan =>
    refine ⟨fun h => ?_, fun h => h ▸ .nan⟩
    cases h
    rfl
  | infinite negative =>
    refine ⟨fun h => ?_, fun h => ?_⟩
    · cases h <;> rfl
    · subst h
      cases negative
      · exact .infinite
      · exact .negativeInfinite
  | finite negative m e =>
    have magnitude {text} : Displayed (.finite false m e) text ↔
        text = positionalNumber (.finite false m e) :=
      displayed_finite_iff (toFloat_ofFloat decoded).1
    cases negative with
    | false => exact magnitude
    | true =>
      refine ⟨fun h => ?_, fun h => ?_⟩
      · cases h with
        | negative h => exact congrArg _ (magnitude.1 h)
      · subst h
        exact .negative (magnitude.2 rfl)

/-- It makes no difference that some numbers are printed as integers, but for zero. -/
theorem formatChars_eq_positionalNumber (h : Canonical m e) (positive : 0 < m) (negative : Bool) :
    formatChars (.finite negative m e) = positionalNumber (.finite negative m e) := by
  by_cases short : ∃ n : ℕ, (n : ℚ) = m * 2 ^ e ∧ n < 10 ^ 15
  · obtain ⟨n, whole, small⟩ := short
    obtain ⟨q, k, shortest, digits⟩ := shortestDecimal_whole h positive whole small
    have nonzero : n ≠ 0 := by
      have : (0 : ℚ) < n := whole ▸ (owns_self m e).pos positive
      exact_mod_cast this.ne'
    have some_digit : 0 < q :=
      Nat.pos_of_ne_zero fun zero => nonzero (by rw [digits, zero, zero_mul])
    rw [formatChars_whole negative whole small, positionalNumber, if_neg positive.ne', shortest,
      bne_iff_ne.2 nonzero, Bool.and_true, digits, decimalDigits_mul_pow some_digit]
    rfl
  · exact formatChars_other negative fun n whole small => short ⟨n, whole, small⟩

theorem ofFloat_eq_negative_zero_iff {x : Float} :
    (∃ e, Binary64.ofFloat x = .finite true 0 e) ↔ x.toBits = 0x8000000000000000 := by
  constructor
  · rintro ⟨e, decoded⟩
    obtain ⟨-, bits⟩ := ofBits_eq_finite decoded
    have zero : encode 0 e = 0 := if_pos (by norm_num)
    have sign : (0x8000000000000000 : UInt64).toNat = 0 + 2 ^ 63 := by decide
    rw [zero, if_pos rfl, twoTo_eq, ← sign] at bits
    exact UInt64.toNat_inj.1 bits
  · intro bits
    refine ⟨-1074, ?_⟩
    rw [Binary64.ofFloat, bits]
    decide

/-- **How every number is printed.** Without an exponent, as the shortest decimal of those
that it owns, which are those that are read as it. The negative zero alone is printed
otherwise: it loses its sign.

A whole number below `10 ^ 15` is converted to an integer of 64 bits without loss, and
the digits of that integer, which are printed, are the shortest ones with their zeros. -/
theorem formatNumber_exact (x : Float) :
    (∀ text, Displayed (.ofFloat x) text ↔ text = positionalNumber (.ofFloat x)) ∧
      formatNumber x = (if x.toBits = 0x8000000000000000 then "0"
        else String.ofList (positionalNumber (.ofFloat x))) ∧
      ∀ negative m e, Binary64.ofFloat x = .finite negative m e →
        (0 < m → ∀ d : Decimal,
            nearestDecimal negative d.digits d.exponent = x ↔ Owns m e d.value) ∧
          ∀ n : ℕ, (n : ℚ) = m * 2 ^ e → n < 10 ^ 15 →
            (toInt64 (.ofFloat x)).toInt = (if negative then -(n : ℤ) else n) ∧
              formatNumber x = toString (toInt64 (.ofFloat x)).toInt ∧
              (0 < n → ∃ q k : ℕ, IsShortest m e ⟨q, k⟩ ∧
                Nat.toDigits 10 n = Nat.toDigits 10 q ++ List.replicate k '0') := by
  refine ⟨fun _ => displayed_iff x, ?_, fun negative m e decoded => ?_⟩
  · rw [formatNumber]
    split_ifs with zero
    · obtain ⟨e, decoded⟩ := ofFloat_eq_negative_zero_iff.2 zero
      rw [decoded, formatChars_zero]
    · refine congrArg String.ofList ?_
      cases decoded : Binary64.ofFloat x with
      | nan => rfl
      | infinite negative => rfl
      | finite negative m e =>
        rcases Nat.eq_zero_or_pos m with rfl | positive
        · cases negative with
          | false => exact formatChars_zero false e
          | true => exact absurd (ofFloat_eq_negative_zero_iff.1 ⟨e, decoded⟩) zero
        · exact formatChars_eq_positionalNumber (toFloat_ofFloat decoded).1 positive negative
  · obtain ⟨canonical, rfl⟩ := toFloat_ofFloat decoded
    refine ⟨fun positive d => nearestDecimal_eq_iff canonical positive negative,
      fun n whole small => ?_⟩
    have converted := toInt64_whole negative whole small
    rw [decoded, formatNumber, decoded, converted]
    refine ⟨rfl, ?_, fun some => ?_⟩
    · rw [formatChars_whole negative whole small, ← toList_toString_int, String.ofList_toList]
    · have positive : 0 < m := Nat.pos_of_ne_zero fun zero => by
        rw [zero, Nat.cast_zero, zero_mul] at whole
        exact some.ne' (by exact_mod_cast whole)
      obtain ⟨q, k, shortest, rfl⟩ := shortestDecimal_whole canonical positive whole small
      refine ⟨q, k, shortest ▸ isShortest_shortestDecimal canonical positive, ?_⟩
      exact decimalDigits_mul_pow (Nat.pos_of_mul_pos_right some) k

/-- Ten is converted to an integer and printed as one; its shortest decimal has the one
digit of `1`, and a zero is written after it. -/
theorem formatNumber_exact_ten :
    let x := Float.ofBits 0x4024000000000000
    Binary64.ofFloat x = .finite false (5 * 2 ^ 50) (-49) ∧
      ((10 : ℕ) : ℚ) = (5 * 2 ^ 50 : ℕ) * 2 ^ (-49 : ℤ) ∧ 10 < 10 ^ 15 ∧
      (toInt64 (.ofFloat x)).toInt = 10 ∧ formatNumber x = "10" ∧
      (∃ q k : ℕ, IsShortest (5 * 2 ^ 50) (-49) ⟨q, k⟩ ∧
        ['1', '0'] = Nat.toDigits 10 q ++ List.replicate k '0') ∧
      Owns (5 * 2 ^ 50) (-49) (Decimal.mk 1 1).value := by
  intro x
  have decoded : Binary64.ofFloat x = .finite false (5 * 2 ^ 50) (-49) := by decide
  have whole : ((10 : ℕ) : ℚ) = (5 * 2 ^ 50 : ℕ) * 2 ^ (-49 : ℤ) := by norm_num
  obtain ⟨-, -, finite⟩ := formatNumber_exact x
  obtain ⟨reads, wholes⟩ := finite false _ _ decoded
  obtain ⟨converted, printed, shortest⟩ := wholes 10 whole (by norm_num)
  rw [converted] at printed
  exact ⟨decoded, whole, by norm_num, converted, printed, shortest (by norm_num),
    (reads (by norm_num) ⟨1, 1⟩).1 (by decide)⟩

end ScopeLisp
