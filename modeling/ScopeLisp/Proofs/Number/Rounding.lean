/-
ScopeLisp.Proofs.Number.Rounding — which ratios round to a number.

A number owns the ratios that are nearer to it than to its neighbours, with the two
halfway points when its mantissa is even (`Binary64.Owns`). Rounding takes every
ratio that a number owns to the bit pattern of that number (`nearestBits_eq`), and no
other ratio (`owns_of_nearestBits`).
-/
import ScopeLisp.Number.Binary64
import Mathlib.Algebra.Order.Field.Power
import Mathlib.Algebra.Order.Floor.Semifield
import Mathlib.Data.Rat.Floor
import Mathlib.Tactic.FieldSimp
import Mathlib.Tactic.Linarith
import Mathlib.Tactic.Positivity
import Mathlib.Tactic.Ring

namespace ScopeLisp

/-! ## Ratios -/

theorem twoTo_eq (k : ℕ) : twoTo k = 2 ^ k := rfl

theorem tenTo_eq (k : ℕ) : tenTo k = 10 ^ k := rfl

/-- A ratio of natural numbers as a rational number. -/
def ratio (r : ℕ × ℕ) : ℚ := r.1 / r.2

theorem scaleByTwo_den_pos {num den : ℕ} (h : 0 < den) (e : ℤ) :
    0 < (scaleByTwo num den e).2 := by
  cases e with
  | ofNat k => exact h
  | negSucc k => exact Nat.mul_pos h (twoTo_pos _)

theorem ratio_scaleByTwo (num den : ℕ) (e : ℤ) :
    ratio (scaleByTwo num den e) = num / den * 2 ^ e := by
  cases e with
  | ofNat k =>
    simp [ratio, scaleByTwo, twoTo_eq]
    ring
  | negSucc k =>
    simp [ratio, scaleByTwo, twoTo_eq, zpow_negSucc]
    ring

/-! ## Rounding to a natural number -/

theorem roundHalfEven_eq_of_le {num den m : ℕ} (h : 0 < den) (low : 2 * (den * m) ≤ 2 * num + den)
    (high : 2 * num ≤ 2 * (den * m) + den)
    (strict : m % 2 = 0 ∨ 2 * (den * m) < 2 * num + den ∧ 2 * num < 2 * (den * m) + den) :
    roundHalfEven num den = m := by
  have split := Nat.div_add_mod num den
  have rest := Nat.mod_lt num h
  simp only [roundHalfEven]
  generalize num / den = q at split ⊢
  generalize num % den = r at split rest ⊢
  subst split
  have upper : m < q + 2 := by
    refine Nat.lt_of_mul_lt_mul_left (a := den) ?_
    rw [Nat.mul_add]
    omega
  have lower : q < m + 1 := by
    refine Nat.lt_of_mul_lt_mul_left (a := den) ?_
    rw [Nat.mul_add]
    omega
  obtain rfl | rfl : m = q ∨ m = q + 1 := by omega
  · split_ifs <;> omega
  · rw [Nat.mul_add] at low high strict
    split_ifs <;> omega

/-- A ratio within half a unit of a natural number is rounded to it, with exactly half a
unit if it is even. -/
theorem roundHalfEven_eq {num den m : ℕ} (h : 0 < den) (low : (m : ℚ) - 1 / 2 ≤ num / den)
    (high : (num / den : ℚ) ≤ m + 1 / 2)
    (strict : m % 2 = 0 ∨ (m : ℚ) - 1 / 2 < num / den ∧ (num / den : ℚ) < m + 1 / 2) :
    roundHalfEven num den = m := by
  have hden : (0 : ℚ) < den := by exact_mod_cast h
  rw [le_div_iff₀ hden] at low
  rw [div_le_iff₀ hden] at high
  rw [lt_div_iff₀ hden, div_lt_iff₀ hden] at strict
  have low : (2 * (den * m) : ℚ) ≤ 2 * num + den := by linarith
  have high : (2 * num : ℚ) ≤ 2 * (den * m) + den := by linarith
  refine roundHalfEven_eq_of_le h (by exact_mod_cast low) (by exact_mod_cast high) ?_
  refine strict.imp_right fun ⟨low, high⟩ => ?_
  have low : (2 * (den * m) : ℚ) < 2 * num + den := by linarith
  have high : (2 * num : ℚ) < 2 * (den * m) + den := by linarith
  exact ⟨by exact_mod_cast low, by exact_mod_cast high⟩

/-- Rounding moves a ratio by half a unit at most, and by less unless it ends at an even
number. -/
theorem roundHalfEven_near {num den : ℕ} (h : 0 < den) :
    (roundHalfEven num den : ℚ) - 1 / 2 ≤ num / den ∧
      (num / den : ℚ) ≤ roundHalfEven num den + 1 / 2 ∧
      (roundHalfEven num den % 2 = 0 ∨ (roundHalfEven num den : ℚ) - 1 / 2 < num / den ∧
        (num / den : ℚ) < roundHalfEven num den + 1 / 2) := by
  have split := Nat.div_add_mod num den
  have rest := Nat.mod_lt num h
  have hden : (0 : ℚ) < den := by exact_mod_cast h
  obtain ⟨low, high, strict⟩ : 2 * (den * roundHalfEven num den) ≤ 2 * num + den ∧
      2 * num ≤ 2 * (den * roundHalfEven num den) + den ∧
      (roundHalfEven num den % 2 = 0 ∨ 2 * (den * roundHalfEven num den) < 2 * num + den ∧
        2 * num < 2 * (den * roundHalfEven num den) + den) := by
    simp only [roundHalfEven]
    generalize num / den = q at split ⊢
    generalize num % den = r at split rest ⊢
    subst split
    split_ifs <;> simp only [Nat.mul_add] <;> omega
  generalize roundHalfEven num den = m at low high strict ⊢
  rw [le_div_iff₀ hden, div_le_iff₀ hden, lt_div_iff₀ hden, div_lt_iff₀ hden]
  have low : (2 * (den * m) : ℚ) ≤ 2 * num + den := by exact_mod_cast low
  have high : (2 * num : ℚ) ≤ 2 * (den * m) + den := by exact_mod_cast high
  refine ⟨by linarith, by linarith, strict.imp_right fun ⟨low, high⟩ => ?_⟩
  have low : (2 * (den * m) : ℚ) < 2 * num + den := by exact_mod_cast low
  have high : (2 * num : ℚ) < 2 * (den * m) + den := by exact_mod_cast high
  exact ⟨by linarith, by linarith⟩

/-! ## The mantissa of a ratio -/

/-- A number lies between two powers of two. -/
theorem zpow_log2_le {n : ℕ} (h : 0 < n) :
    (2 : ℚ) ^ (n.log2 : ℤ) ≤ n ∧ (n : ℚ) < 2 ^ (n.log2 + 1 : ℤ) := by
  constructor
  · exact_mod_cast Nat.log2_self_le h.ne'
  · exact_mod_cast Nat.lt_log2_self

theorem div_scaled_lt {num den bound : ℕ} (hden : 0 < den) (e : ℤ) :
    (scaleByTwo num den (-e)).1 / (scaleByTwo num den (-e)).2 < bound ↔
      (num / den : ℚ) < bound * 2 ^ e := by
  have pos : 0 < (scaleByTwo num den (-e)).2 := scaleByTwo_den_pos hden (-e)
  have power : (0 : ℚ) < 2 ^ e := by positivity
  have scaled := ratio_scaleByTwo num den (-e)
  rw [zpow_neg, ← div_eq_mul_inv] at scaled
  rw [← div_lt_iff₀ power, ← scaled, ratio, div_lt_iff₀ (by exact_mod_cast pos),
    Nat.div_lt_iff_lt_mul pos]
  norm_cast

/-- A ratio is brought to 53 bits. -/
theorem mantissaExponent_spec {num den : ℕ} (hnum : 0 < num) (hden : 0 < den) :
    (2 : ℚ) ^ (mantissaExponent num den + 52) ≤ num / den ∧
      (num / den : ℚ) < 2 ^ (mantissaExponent num den + 53) := by
  obtain ⟨numLow, numHigh⟩ := zpow_log2_le hnum
  obtain ⟨denLow, denHigh⟩ := zpow_log2_le hden
  have hden' : (0 : ℚ) < den := by exact_mod_cast hden
  have two : (2 : ℚ) ≠ 0 := by norm_num
  set guess : ℤ := (num.log2 : ℤ) - (den.log2 : ℤ) - 52 with hguess
  have lower : (2 : ℚ) ^ (guess + 51) < num / den := by
    rw [show guess + 51 = (num.log2 : ℤ) - (den.log2 + 1) by omega, zpow_sub₀ two]
    have positive : (0 : ℚ) < num := by exact_mod_cast hnum
    exact div_lt_div₀' numLow denHigh positive hden'
  have upper : (num / den : ℚ) < 2 ^ (guess + 53) := by
    rw [show guess + 53 = (num.log2 + 1 : ℤ) - den.log2 by omega, zpow_sub₀ two]
    exact div_lt_div₀ numHigh denLow (by positivity) (by positivity)
  have test : (scaleByTwo num den (-guess)).1 / (scaleByTwo num den (-guess)).2 < twoTo 52 ↔
      (num / den : ℚ) < (twoTo 52 : ℕ) * 2 ^ guess := div_scaled_lt hden guess
  rw [show ((twoTo 52 : ℕ) : ℚ) = 2 ^ (52 : ℤ) by norm_num [twoTo_eq], ← zpow_add₀ two,
    add_comm] at test
  simp only [mantissaExponent, ← hguess]
  split_ifs with small
  · rw [show guess - 1 + 52 = guess + 51 by omega, show guess - 1 + 53 = guess + 52 by omega]
    exact ⟨lower.le, test.1 small⟩
  · exact ⟨not_lt.1 (mt test.2 small), upper⟩

/-! ## Numbers -/

namespace Binary64

/-- The mantissas and exponents of the finite numbers: 53 bits, unless the exponent is
the least one. -/
structure Canonical (m : ℕ) (e : ℤ) : Prop where
  mantissa : m < 2 ^ 53
  least : -1074 ≤ e
  greatest : e ≤ 971
  normal : 2 ^ 52 ≤ m ∨ e = -1074

/-- The bit pattern, without sign, of a finite number. -/
def encode (m : ℕ) (e : ℤ) : ℕ :=
  if m < 2 ^ 52 then m else (e + 1075).toNat * 2 ^ 52 + (m - 2 ^ 52)

/-- How far the interval that a number owns reaches below it, in units of its last
place. The number below it is half as far away if the mantissa is the least of its
length. -/
def below (m : ℕ) (e : ℤ) : ℚ := if m = 2 ^ 52 ∧ e ≠ -1074 then 1 / 4 else 1 / 2

/-- The ratios that a number owns. -/
structure Owns (m : ℕ) (e : ℤ) (x : ℚ) : Prop where
  low : (m - below m e) * 2 ^ e ≤ x
  high : x ≤ (m + 1 / 2) * 2 ^ e
  strict : m % 2 = 0 ∨ (m - below m e) * 2 ^ e < x ∧ x < (m + 1 / 2) * 2 ^ e

variable {m num den : ℕ} {e : ℤ} {x : ℚ}

theorem below_le (m : ℕ) (e : ℤ) : below m e ≤ 1 / 2 := by
  rw [below]
  split_ifs <;> norm_num

theorem below_pos (m : ℕ) (e : ℤ) : 0 < below m e := by
  rw [below]
  split_ifs <;> norm_num

theorem Canonical.encode_lt (h : Canonical m e) : encode m e < 2047 * 2 ^ 52 := by
  obtain ⟨mantissa, least, greatest, normal⟩ := h
  rw [encode]
  split_ifs <;> omega

theorem Owns.pos (h : Owns m e x) (positive : 0 < m) : 0 < x := by
  have one_le : (1 : ℚ) ≤ m := by exact_mod_cast positive
  have := below_le m e
  exact lt_of_lt_of_le (mul_pos (by linarith) (by positivity)) h.low

theorem owns_self (m : ℕ) (e : ℤ) : Owns m e (m * 2 ^ e) := by
  have unit : (0 : ℚ) < 2 ^ e := by positivity
  have low : (m - below m e) * 2 ^ e < m * 2 ^ e :=
    mul_lt_mul_of_pos_right (sub_lt_self _ (below_pos m e)) unit
  have high : (m : ℚ) * 2 ^ e < (m + 1 / 2) * 2 ^ e :=
    mul_lt_mul_of_pos_right (lt_add_of_pos_right _ (by norm_num)) unit
  exact ⟨low.le, high.le, .inr ⟨low, high⟩⟩

/-- A number owns what is between two ratios that it owns. -/
theorem Owns.between {y z : ℚ} (low : Owns m e x) (high : Owns m e z)
    (hxy : x ≤ y) (hyz : y ≤ z) : Owns m e y :=
  ⟨low.low.trans hxy, hyz.trans high.high, low.strict.elim .inl fun below =>
    high.strict.imp_right fun above => ⟨below.1.trans_le hxy, hyz.trans_lt above.2⟩⟩

/-- What a number owns, in units of its last place. -/
theorem Owns.scaled (h : Owns m e x) :
    m - below m e ≤ x * 2 ^ (-e) ∧ x * 2 ^ (-e) ≤ m + 1 / 2 ∧
      (m % 2 = 0 ∨ m - below m e < x * 2 ^ (-e) ∧ x * 2 ^ (-e) < m + 1 / 2) := by
  have unit : (0 : ℚ) < 2 ^ e := by positivity
  rw [zpow_neg, ← div_eq_mul_inv, le_div_iff₀ unit, div_le_iff₀ unit, lt_div_iff₀ unit,
    div_lt_iff₀ unit]
  exact ⟨h.low, h.high, h.strict⟩

/-- The exponent at which an owned ratio is rounded is that of the number, but for the
ratios just below a power of two. -/
theorem Owns.exponent_cases {E : ℤ} (h : Canonical m e) (positive : 0 < m) (owns : Owns m e x)
    (low : (2 : ℚ) ^ (E + 52) ≤ x) (high : x < 2 ^ (E + 53)) :
    max E (-1074) = e ∨ max E (-1074) = e - 1 ∧ m = 2 ^ 52 ∧ e ≠ -1074 := by
  have two : (1 : ℚ) < 2 := one_lt_two
  have unit : (0 : ℚ) < 2 ^ e := by positivity
  have shift : ∀ k : ℤ, (2 : ℚ) ^ (e + k) = 2 ^ k * 2 ^ e := fun k => by
    rw [zpow_add₀ two_ne_zero, mul_comm]
  have short : (m : ℚ) + 1 ≤ 2 ^ (53 : ℤ) := by exact_mod_cast h.mantissa
  have upper : E ≤ e := by
    have : (2 : ℚ) ^ (E + 52) < 2 ^ (e + 53) := by
      rw [shift]
      exact lt_of_le_of_lt (low.trans owns.high) (mul_lt_mul_of_pos_right (by linarith) unit)
    have := (zpow_lt_zpow_iff_right₀ two).1 this
    omega
  have least := h.least
  by_cases same : max E (-1074) = e
  · exact .inl same
  have below_e : E + 53 ≤ e + 52 := by omega
  have normal : 2 ^ 52 ≤ m := h.normal.resolve_right (by omega)
  have under : x < 2 ^ (52 : ℤ) * 2 ^ e := by
    rw [← shift]
    exact high.trans_le ((zpow_le_zpow_iff_right₀ two).2 below_e)
  have mantissa : m = 2 ^ 52 := by
    have close := lt_of_mul_lt_mul_right (owns.low.trans_lt under) unit.le
    have half := below_le m e
    norm_num at close half
    have : (m : ℚ) < 2 ^ 52 + 1 := by linarith
    have : m < 2 ^ 52 + 1 := by exact_mod_cast this
    omega
  subst mantissa
  have lower : e + 51 < E + 53 := by
    refine (zpow_lt_zpow_iff_right₀ two).1 (lt_of_le_of_lt ?_ high)
    rw [shift]
    refine (mul_le_mul_of_nonneg_right ?_ unit.le).trans owns.low
    have := below_le (2 ^ 52) e
    norm_num at this ⊢
    linarith
  exact .inr ⟨by omega, rfl, by omega⟩

end Binary64

open Binary64

/-- **A ratio that a number owns is rounded to it.** -/
theorem nearestBits_eq {m num den : ℕ} {e : ℤ} (h : Canonical m e) (positive : 0 < m)
    (hden : 0 < den) (owns : Owns m e (num / den)) : nearestBits num den = encode m e := by
  have hnum : 0 < num := by
    have := owns.pos positive
    rw [div_pos_iff_of_pos_right (by exact_mod_cast hden)] at this
    exact_mod_cast this
  obtain ⟨low, high⟩ := mantissaExponent_spec hnum hden
  have bound := h.encode_lt
  simp only [nearestBits, if_neg hnum.ne', twoTo_eq]
  rcases owns.exponent_cases h positive low high with same | ⟨lower, rfl, inner⟩
  · have rounded : roundHalfEven (scaleByTwo num den (-e)).1 (scaleByTwo num den (-e)).2 = m := by
      have scaled := ratio_scaleByTwo num den (-e)
      rw [ratio] at scaled
      obtain ⟨low, high, strict⟩ := owns.scaled
      have half := below_le m e
      rw [← scaled] at low high strict
      refine roundHalfEven_eq (scaleByTwo_den_pos hden _) (by linarith) high ?_
      exact strict.imp_right fun strict => ⟨by linarith, strict.2⟩
    rw [same, rounded]
    exact min_eq_left bound.le
  · have rounded : roundHalfEven (scaleByTwo num den (-(e - 1))).1
        (scaleByTwo num den (-(e - 1))).2 = 2 ^ 53 := by
      have scaled := ratio_scaleByTwo num den (-(e - 1))
      rw [ratio] at scaled
      have double : (2 : ℚ) ^ (-(e - 1)) = 2 * 2 ^ (-e) := by
        rw [show -(e - 1) = 1 + -e by omega, zpow_add₀ two_ne_zero, zpow_one]
      obtain ⟨low, -, -⟩ := owns.scaled
      have under : (num / den : ℚ) * 2 ^ (-(e - 1)) ≤ 2 ^ 53 := by
        have top : (2 : ℚ) ^ (mantissaExponent num den + 53) ≤ 2 ^ (53 + (e - 1)) :=
          zpow_le_zpow_right₀ one_le_two (by omega)
        rw [zpow_add₀ two_ne_zero 53] at top
        rw [zpow_neg, ← div_eq_mul_inv, div_le_iff₀ (by positivity)]
        exact_mod_cast high.le.trans top
      rw [below, if_pos ⟨rfl, inner⟩] at low
      refine roundHalfEven_eq (scaleByTwo_den_pos hden _) ?_ ?_ (.inl (by norm_num))
      · rw [scaled, double]
        norm_num at low ⊢
        linarith
      · rw [scaled]
        push_cast
        linarith
    rw [lower, rounded]
    rw [encode] at bound ⊢
    have := h.least
    simp at bound ⊢
    omega

/-- A ratio that rounds to a number, where it is rounded in units of `2 ^ E`. -/
theorem Binary64.owns_of_scaled {m : ℕ} {e E : ℤ} {x : ℚ} {q : ℕ} (h : Canonical m e)
    (least : -1074 ≤ E) (under : x * 2 ^ (-E) < 2 ^ 53)
    (normal : E = -1074 ∨ 2 ^ 52 ≤ x * 2 ^ (-E))
    (low : (q : ℚ) - 1 / 2 ≤ x * 2 ^ (-E)) (high : x * 2 ^ (-E) ≤ q + 1 / 2)
    (strict : q % 2 = 0 ∨ (q : ℚ) - 1 / 2 < x * 2 ^ (-E) ∧ x * 2 ^ (-E) < q + 1 / 2)
    (bits : (if q < 2 ^ 52 then q else (E + 1075).toNat * 2 ^ 52 + (q - 2 ^ 52)) = encode m e) :
    Owns m e x := by
  obtain ⟨mantissa, lowest, -, normal_or_least⟩ := h
  have unit : (0 : ℚ) < 2 ^ E := by positivity
  have short : q ≤ 2 ^ 53 := by
    have : (q : ℚ) < 2 ^ 53 + 1 := by linarith
    have : q < 2 ^ 53 + 1 := by exact_mod_cast this
    omega
  have long : E = -1074 ∨ 2 ^ 52 ≤ q := normal.imp_right fun full => by
    have : (2 ^ 52 : ℚ) < q + 1 := by linarith
    have : 2 ^ 52 < q + 1 := by exact_mod_cast this
    omega
  have cases : m = q ∧ e = E ∨ q = 2 ^ 53 ∧ m = 2 ^ 52 ∧ e = E + 1 := by
    rw [encode] at bits
    split_ifs at bits <;> omega
  have scaled : x * 2 ^ (-E) * 2 ^ E = x := by
    rw [mul_assoc, ← zpow_add₀ two_ne_zero]
    simp
  rcases cases with ⟨rfl, rfl⟩ | ⟨rfl, rfl, rfl⟩
  · have below_low : m - below m e ≤ x * 2 ^ (-e) ∧
        (m % 2 = 0 ∨ m - below m e < x * 2 ^ (-e)) := by
      rw [below]
      split_ifs with power
      · obtain ⟨rfl, inner⟩ := power
        have full := normal.resolve_left inner
        push_cast
        exact ⟨by linarith, .inl (by norm_num)⟩
      · exact ⟨low, strict.imp_right And.left⟩
    rw [← scaled]
    exact ⟨mul_le_mul_of_nonneg_right below_low.1 unit.le,
      mul_le_mul_of_nonneg_right high unit.le,
      strict.elim .inl fun strict => below_low.2.imp_right fun above =>
        ⟨mul_lt_mul_of_pos_right above unit, mul_lt_mul_of_pos_right strict.2 unit⟩⟩
  · -- Just below a power of two the last place is half as large.
    have double : (2 : ℚ) ^ (E + 1) = 2 * 2 ^ E := by
      rw [zpow_add₀ two_ne_zero, zpow_one, mul_comm]
    have lower : (2 ^ 53 - 1 / 2) * 2 ^ E ≤ x := by
      rw [← scaled]
      exact mul_le_mul_of_nonneg_right (by exact_mod_cast low) unit.le
    have upper : x < 2 ^ 53 * 2 ^ E := by
      rw [← scaled]
      exact mul_lt_mul_of_pos_right under unit
    refine ⟨?_, ?_, .inl (by norm_num)⟩
    · rw [below, if_pos ⟨rfl, by omega⟩, double]
      push_cast
      linarith
    · rw [double]
      push_cast
      linarith

/-- Only the ratios that a number owns are rounded to it. -/
theorem owns_of_nearestBits {m num den : ℕ} {e : ℤ} (h : Canonical m e) (hnum : 0 < num)
    (hden : 0 < den) (rounded : nearestBits num den = encode m e) : Owns m e (num / den) := by
  obtain ⟨low, high⟩ := mantissaExponent_spec hnum hden
  have bound := h.encode_lt
  simp only [nearestBits, if_neg hnum.ne', twoTo_eq] at rounded
  generalize hE : max (mantissaExponent num den) (-1074) = E at rounded
  have ratio_eq := ratio_scaleByTwo num den (-E)
  rw [ratio] at ratio_eq
  have near := @roundHalfEven_near (scaleByTwo num den (-E)).1 (scaleByTwo num den (-E)).2
    (scaleByTwo_den_pos hden (-E))
  generalize roundHalfEven (scaleByTwo num den (-E)).1 (scaleByTwo num den (-E)).2 = q
    at rounded near
  rw [ratio_eq] at near
  refine owns_of_scaled h (by omega) ?_ ?_ near.1 near.2.1 near.2.2 ?_
  · have shift : (2 : ℚ) ^ (mantissaExponent num den + 53) ≤ 2 ^ (53 + E) :=
      zpow_le_zpow_right₀ one_le_two (by omega)
    rw [zpow_add₀ two_ne_zero 53] at shift
    rw [zpow_neg, ← div_eq_mul_inv, div_lt_iff₀ (by positivity)]
    exact_mod_cast high.trans_le shift
  · rcases max_choice (mantissaExponent num den) (-1074) with same | same
    · refine .inr ?_
      rw [show mantissaExponent num den + 52 = 52 + E by omega, zpow_add₀ two_ne_zero 52] at low
      rw [zpow_neg, ← div_eq_mul_inv, le_div_iff₀ (by positivity)]
      exact_mod_cast low
    · exact .inl (by omega)
  · exact (min_eq_iff.1 rounded).elim And.left fun top => absurd top.1 bound.ne'

end ScopeLisp
