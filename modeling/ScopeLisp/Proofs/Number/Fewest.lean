/-
ScopeLisp.Proofs.Number.Fewest — of the decimals that a number owns, the one that is
printed.

It has the fewest digits, it is the nearest to the number of those that have no more,
and the larger of two that are equally near (`IsShortest`); so there is only one of them
(`IsShortest.unique`). It is found because a decimal that the number owns, if it has `k`
digits, stands on the grid of `k` digits or beyond a point of it, seen from the number
(`exists_onGrid`).
-/
import ScopeLisp.Proofs.Number.Shortest
import Mathlib.Tactic.LinearCombination

namespace ScopeLisp

open Binary64

/-! ## Decimals of one value -/

namespace Decimal

variable {d d' : Decimal} {n c : ℕ}

theorem digitCount_le_iff (h : 0 < c) : digitCount n ≤ c ↔ n < 10 ^ c :=
  Nat.length_toDigits_le_iff (by norm_num) h

theorem digitCount_pos (n : ℕ) : 0 < digitCount n := Nat.length_toDigits_pos

/-- Decimals of one value differ by zeros at the end. -/
theorem digits_eq_mul (same : d.value = d'.value) (h : d'.exponent ≤ d.exponent) :
    d'.digits = d.digits * 10 ^ (d.exponent - d'.exponent).toNat := by
  obtain ⟨k, hk⟩ := Int.eq_ofNat_of_zero_le (sub_nonneg.2 h)
  rw [value, value, show d.exponent = k + d'.exponent by omega, zpow_add₀ (by norm_num),
    zpow_natCast, ← mul_assoc] at same
  have digits := mul_right_cancel₀ (by positivity) same
  rw [hk, Int.toNat_natCast]
  exact_mod_cast digits.symm

theorem digits_pos_of_value (h : 0 < d.value) : 0 < d.digits := by
  refine Nat.pos_of_ne_zero fun zero => ?_
  simp [value, zero] at h

theorem strip_digits_mod (h : 0 < d.digits) : d.strip.digits % 10 ≠ 0 := by
  fun_induction strip d with
  | case1 d zeros ih => exact ih (by simp only; omega)
  | case2 d done => exact fun zero => done ⟨h.ne', zero⟩

/-- Without zeros at the end the digits are the least for the value. -/
theorem digits_le (same : d.value = d'.value) (h : d.digits % 10 ≠ 0) : d.digits ≤ d'.digits := by
  rcases le_or_gt d'.exponent d.exponent with le | lt
  · rw [digits_eq_mul same le]
    exact Nat.le_mul_of_pos_right _ (by positivity)
  · have zeros := digits_eq_mul same.symm lt.le
    obtain ⟨k, hk⟩ : ∃ k, (d'.exponent - d.exponent).toNat = k + 1 :=
      ⟨(d'.exponent - d.exponent).toNat - 1, by omega⟩
    rw [hk, pow_succ, ← mul_assoc] at zeros
    exact absurd (by omega) h

/-- Two decimals of one value without zeros at the end are one. -/
theorem eq_of_value_eq (same : d.value = d'.value) (h : d.digits % 10 ≠ 0)
    (h' : d'.digits % 10 ≠ 0) : d = d' := by
  have digits : d.digits = d'.digits := (digits_le same h).antisymm (digits_le same.symm h')
  have positive : (d.digits : ℚ) ≠ 0 := by
    have : d.digits ≠ 0 := fun zero => by simp [zero] at h
    exact_mod_cast this
  rw [value, value, ← digits] at same
  have exponent :=
    zpow_right_injective₀ (by norm_num) (by norm_num) (mul_left_cancel₀ positive same)
  cases d
  cases d'
  simp_all

end Decimal

/-! ## Grids -/

namespace RoundingInterval

variable {r : RoundingInterval} {m : ℕ} {e E : ℤ} {tie : Tie} {d : Decimal}

/-- The number is less than the next power of ten after its leading digit. -/
theorem lt_pow_leading (hvalue : 0 < r.value) (hunit : 0 < r.unit) :
    (r.value / r.unit : ℚ) < 10 ^ (r.leading + 1) := by
  have hunit' : (0 : ℚ) < r.unit := by exact_mod_cast hunit
  rw [leading]
  split_ifs with large
  · have digits := Decimal.lt_pow_digitCount (r.value / r.unit)
    rw [sub_add_cancel, zpow_natCast, div_lt_iff₀ hunit']
    have := (Nat.div_lt_iff_lt_mul hunit).1 digits
    exact_mod_cast this
  · have whole : 2 ≤ (r.unit + r.value - 1) / r.value :=
      (Nat.le_div_iff_mul_le hvalue).2 (by omega)
    have above := Nat.div_mul_le_self (r.unit + r.value - 1) r.value
    generalize (r.unit + r.value - 1) / r.value = n at whole above ⊢
    obtain ⟨n, rfl⟩ : ∃ q, n = q + 1 := ⟨n - 1, by omega⟩
    rw [Nat.add_sub_cancel, neg_add_eq_sub]
    rw [Nat.succ_mul] at above
    have digits := Decimal.pow_digitCount_le (n := n) (by omega)
    have some_digit := Decimal.digitCount_pos n
    generalize Decimal.digitCount n = c at *
    have short : r.value * 10 ^ (c - 1) < r.unit :=
      calc r.value * 10 ^ (c - 1) ≤ r.value * n := Nat.mul_le_mul_left _ digits
        _ < r.unit := by rw [Nat.mul_comm]; omega
    rw [show (1 : ℤ) - c = -((c - 1 : ℕ) : ℤ) by omega, zpow_neg, zpow_natCast,
      ← one_div, div_lt_div_iff₀ hunit' (by positivity), one_mul]
    exact_mod_cast short

/-- How far the number is above the last point of a grid, measured in that grid. -/
theorem sub_under (m : ℕ) (e E : ℤ) :
    (m * 2 ^ e - (ofFinite m e).under E * 10 ^ E : ℚ) * ((ofFinite m e).onGrid E).unit =
      (((ofFinite m e).onGrid E).value % ((ofFinite m e).onGrid E).unit : ℕ) * 10 ^ E := by
  have onGrid := onGrid_value (ofFinite m e) E
  rw [value_ofFinite, zpow_neg, ← div_eq_mul_inv] at onGrid
  have gridUnit := onGrid_unit_pos (unit_pos m e) E
  rw [under]
  generalize ((ofFinite m e).onGrid E).value = v at *
  generalize ((ofFinite m e).onGrid E).unit = u at *
  have hu : (u : ℚ) ≠ 0 := by exact_mod_cast gridUnit.ne'
  have grid : (10 : ℚ) ^ E ≠ 0 := by positivity
  have split : (v : ℚ) = u * (v / u : ℕ) + (v % u : ℕ) := by
    exact_mod_cast (Nat.div_add_mod v u).symm
  rw [div_eq_div_iff hu grid] at onGrid
  linear_combination onGrid * (-1) + split * 10 ^ E

/-- Twice what is left after division tells which point of a grid is nearer. -/
theorem two_mul_rest (m : ℕ) (e E : ℤ) :
    let g := (ofFinite m e).onGrid E
    let low : ℚ := (ofFinite m e).under E * 10 ^ E
    let high : ℚ := ((ofFinite m e).under E + 1 : ℕ) * 10 ^ E
    let x : ℚ := m * 2 ^ e
    (2 * (g.value % g.unit) < g.unit ↔ x - low < high - x) ∧
      (g.unit < 2 * (g.value % g.unit) ↔ high - x < x - low) := by
  intro g low high x
  have grid : (0 : ℚ) < 10 ^ E := by positivity
  have unit : (0 : ℚ) < g.unit := by exact_mod_cast onGrid_unit_pos (unit_pos m e) E
  have rest : (x - low) * g.unit = (g.value % g.unit : ℕ) * 10 ^ E := sub_under m e E
  have step : high = low + 10 ^ E := by
    simp only [high, low]
    push_cast
    ring
  generalize g.value % g.unit = n at *
  have twice : (2 * (x - low)) * g.unit = (2 * n : ℕ) * 10 ^ E := by
    push_cast
    linear_combination 2 * rest
  constructor
  · rw [← Nat.cast_lt (α := ℚ), ← mul_lt_mul_iff_left₀ grid, ← twice, mul_comm (g.unit : ℚ),
      mul_lt_mul_iff_left₀ unit, step]
    constructor <;> intro <;> linarith
  · rw [← Nat.cast_lt (α := ℚ), ← mul_lt_mul_iff_left₀ grid, ← twice, mul_comm (g.unit : ℚ),
      mul_lt_mul_iff_left₀ unit, step]
    constructor <;> intro <;> linarith

variable {n : ℕ}

/-- If the number owns a point of a grid, it owns the point beside it on that side. -/
theorem owns_beside (owned : Owns m e (n * 10 ^ E)) :
    ((n * 10 ^ E : ℚ) ≤ (ofFinite m e).under E * 10 ^ E ∧
        Owns m e ((ofFinite m e).under E * 10 ^ E)) ∨
      (((ofFinite m e).under E + 1 : ℕ) * 10 ^ E ≤ (n * 10 ^ E : ℚ) ∧
        Owns m e (((ofFinite m e).under E + 1 : ℕ) * 10 ^ E)) := by
  have grid : (0 : ℚ) < 10 ^ E := by positivity
  obtain ⟨low, high⟩ := under_le_lt m e E
  rcases Nat.lt_or_ge ((ofFinite m e).under E) n with above | upTo
  · have step : (((ofFinite m e).under E + 1 : ℕ) * 10 ^ E : ℚ) ≤ n * 10 ^ E :=
      mul_le_mul_of_nonneg_right (by exact_mod_cast above) grid.le
    refine .inr ⟨step, (owns_self m e).between owned ?_ step⟩
    rw [Nat.cast_succ]
    exact high.le
  · have step : (n * 10 ^ E : ℚ) ≤ (ofFinite m e).under E * 10 ^ E :=
      mul_le_mul_of_nonneg_right (by exact_mod_cast upTo) grid.le
    exact .inl ⟨step, owned.between (owns_self m e) step low⟩

/-- If nothing is found on a grid, the number owns no point of it. -/
theorem not_owns_of_nearestOnGrid (positive : 0 < m)
    (none : (ofFinite m e).nearestOnGrid tie E = none) : ¬ Owns m e (n * 10 ^ E) := by
  intro owned
  have found := isSome_nearestOnGrid (r := ofFinite m e) (E := E) tie (by
    rw [holds_ofFinite positive, holds_ofFinite positive]
    exact (owns_beside owned).imp And.right And.right)
  rw [none] at found
  cases found

/-- What is found on a grid is one of the points beside the number, and if the number
owns both, the nearer one. -/
theorem nearestOnGrid_cases (positive : 0 < m)
    (found : (ofFinite m e).nearestOnGrid tie E = some d) :
    let low : ℚ := (ofFinite m e).under E * 10 ^ E
    let high : ℚ := ((ofFinite m e).under E + 1 : ℕ) * 10 ^ E
    let x : ℚ := m * 2 ^ e
    d = ⟨(ofFinite m e).under E, E⟩ ∧
        (Owns m e high → x - low ≤ high - x ∧ (tie = .up → x - low < high - x)) ∨
      d = ⟨(ofFinite m e).under E + 1, E⟩ ∧ (Owns m e low → high - x ≤ x - low) := by
  intro low high x
  have lowOwned := (contains_onGrid (ofFinite m e) ((ofFinite m e).under E) E).trans
    (holds_ofFinite positive)
  have highOwned := (contains_onGrid (ofFinite m e) ((ofFinite m e).under E + 1) E).trans
    (holds_ofFinite positive)
  obtain ⟨nearer, farther⟩ := two_mul_rest m e E
  simp only [nearestOnGrid] at found
  simp only [under] at lowOwned highOwned
  by_cases hl : Owns m e low
  · by_cases hh : Owns m e high
    · simp only [lowOwned.2 hl, highOwned.2 hh, if_true] at found
      split at found
      next near =>
        exact .inl ⟨(Option.some.inj found).symm,
          fun _ => ⟨(nearer.1 near).le, fun _ => nearer.1 near⟩⟩
      next far =>
        have above : high - x ≤ x - low := not_lt.1 (mt nearer.2 far)
        split at found
        next => exact .inr ⟨(Option.some.inj found).symm, fun _ => above⟩
        next close =>
          have below : x - low ≤ high - x := not_lt.1 (mt farther.2 close)
          cases tie with
          | up => exact .inr ⟨(Option.some.inj found).symm, fun _ => above⟩
          | even =>
            dsimp only at found
            split at found
            · exact .inl ⟨(Option.some.inj found).symm,
                fun _ => ⟨below, fun up => absurd up (by decide)⟩⟩
            · exact .inr ⟨(Option.some.inj found).symm, fun _ => above⟩
    · simp only [lowOwned.2 hl, mt highOwned.1 hh, if_true] at found
      exact .inl ⟨(Option.some.inj found).symm, fun owned => absurd owned hh⟩
  · by_cases hh : Owns m e high
    · simp only [mt lowOwned.1 hl, highOwned.2 hh, if_true] at found
      exact .inr ⟨(Option.some.inj found).symm, fun owned => absurd owned hl⟩
    · simp only [mt lowOwned.1 hl, mt highOwned.1 hh] at found
      cases found

/-- What is found on a grid is nearest to the number of the points that it owns, and the
larger of two that are equally near, if ties go up. -/
theorem nearest_of_nearestOnGrid (positive : 0 < m)
    (found : (ofFinite m e).nearestOnGrid tie E = some d) (owned : Owns m e (n * 10 ^ E)) :
    |d.value - m * 2 ^ e| ≤ |(n * 10 ^ E : ℚ) - m * 2 ^ e| ∧
      (tie = .up → |d.value - m * 2 ^ e| = |(n * 10 ^ E : ℚ) - m * 2 ^ e| →
        n * 10 ^ E ≤ d.value) := by
  obtain ⟨below, above⟩ := under_le_lt m e E
  have beside := owns_beside owned
  have cases := nearestOnGrid_cases positive found
  rw [← Nat.cast_succ] at above
  have lowValue : (Decimal.mk ((ofFinite m e).under E) E).value =
      (ofFinite m e).under E * 10 ^ E := rfl
  have highValue : (Decimal.mk ((ofFinite m e).under E + 1) E).value =
      ((ofFinite m e).under E + 1 : ℕ) * 10 ^ E := rfl
  generalize ((ofFinite m e).under E : ℚ) * 10 ^ E = low at *
  generalize (((ofFinite m e).under E + 1 : ℕ) : ℚ) * 10 ^ E = high at *
  generalize (m * 2 ^ e : ℚ) = x at *
  generalize (n * 10 ^ E : ℚ) = y at *
  rcases cases with ⟨rfl, near⟩ | ⟨rfl, near⟩
  · rw [lowValue, abs_of_nonpos (by linarith : low - x ≤ 0)]
    rcases beside with ⟨hy, -⟩ | ⟨hy, highOwned⟩
    · rw [abs_of_nonpos (by linarith : y - x ≤ 0)]
      exact ⟨by linarith, fun _ same => by linarith⟩
    · rw [abs_of_pos (by linarith : 0 < y - x)]
      obtain ⟨le, lt⟩ := near highOwned
      exact ⟨by linarith, fun up same => by linarith [lt up]⟩
  · rw [highValue, abs_of_pos (by linarith : 0 < high - x)]
    rcases beside with ⟨hy, lowOwned⟩ | ⟨hy, -⟩
    · rw [abs_of_nonpos (by linarith : y - x ≤ 0)]
      exact ⟨by linarith [near lowOwned], fun _ _ => by linarith⟩
    · rw [abs_of_pos (by linarith : 0 < y - x)]
      exact ⟨by linarith, fun _ same => by linarith⟩

/-- A decimal of at most `k + 1` digits that a number owns stands on the grid of so many
digits, or below a point of it that is not above the number. -/
theorem exists_onGrid (positive : 0 < m) (owned : Owns m e d.value) {k : ℕ}
    (short : Decimal.digitCount d.digits ≤ k + 1) :
    ∃ n : ℕ, Owns m e (n * 10 ^ ((ofFinite m e).leading - k)) ∧
      (d.value = n * 10 ^ ((ofFinite m e).leading - k) ∨
        d.value < n * 10 ^ ((ofFinite m e).leading - k) ∧
          (n * 10 ^ ((ofFinite m e).leading - k) : ℚ) ≤ m * 2 ^ e) := by
  have first := pow_leading_le (value_pos positive (e := e)) (unit_pos m e)
  rw [value_ofFinite] at first
  generalize (ofFinite m e).leading = L at *
  rcases le_or_gt (10 ^ L) d.value with le | lt
  · have digits : (d.digits : ℚ) < 10 ^ (k + 1) := by
      exact_mod_cast (Decimal.digitCount_le_iff k.succ_pos).1 short
    have under : (10 : ℚ) ^ L < 10 ^ ((k + 1 : ℕ) + d.exponent) := by
      rw [zpow_add₀ (by norm_num), zpow_natCast]
      exact le.trans_lt (mul_lt_mul_of_pos_right digits (by positivity))
    have exponent := (zpow_lt_zpow_iff_right₀ (by norm_num)).1 under
    obtain ⟨i, hi⟩ := Int.eq_ofNat_of_zero_le (show 0 ≤ d.exponent - (L - k) by omega)
    have same : d.value = (d.digits * 10 ^ i : ℕ) * 10 ^ (L - k) := by
      rw [Decimal.value, show d.exponent = i + (L - k) by omega, zpow_add₀ (by norm_num),
        zpow_natCast]
      push_cast
      ring
    exact ⟨_, same ▸ owned, .inl same⟩
  · have power : ((10 ^ k : ℕ) : ℚ) * 10 ^ (L - k) = 10 ^ L := by
      push_cast
      rw [← zpow_natCast, ← zpow_add₀ (by norm_num)]
      congr 1
      omega
    refine ⟨10 ^ k, ?_, .inr ⟨?_, ?_⟩⟩
    · rw [power]
      exact owned.between (owns_self m e) lt.le first
    · rwa [power]
    · rwa [power]

/-- What is found on the grid of `k + 1` digits has no more digits, without zeros at the
end. -/
theorem digitCount_strip_le (positive : 0 < m) {k : ℕ}
    (found : (ofFinite m e).nearestOnGrid tie ((ofFinite m e).leading - k) = some d) :
    Decimal.digitCount d.strip.digits ≤ k + 1 := by
  have last := lt_pow_leading (value_pos positive (e := e)) (unit_pos m e)
  rw [value_ofFinite] at last
  have owned := (holds_ofFinite positive).1 (holds_of_nearestOnGrid found)
  have some_digit := Decimal.digits_pos_of_value (owned.pos positive)
  have few : d.digits ≤ 10 ^ (k + 1) := by
    have under := (under_le_lt m e ((ofFinite m e).leading - k)).1.trans_lt last
    have cases := nearestOnGrid_cases positive found
    generalize (ofFinite m e).under ((ofFinite m e).leading - k) = f at under cases
    rw [show (ofFinite m e).leading + 1 = (k + 1 : ℕ) + ((ofFinite m e).leading - k) by
      push_cast; ring, zpow_add₀ (by norm_num), zpow_natCast] at under
    have short := lt_of_mul_lt_mul_right under (by positivity)
    have short : f < 10 ^ (k + 1) := by exact_mod_cast short
    rcases cases with ⟨rfl, -⟩ | ⟨rfl, -⟩
    · exact short.le
    · exact short
  have done := Decimal.strip_digits_mod some_digit
  rw [Decimal.digitCount_le_iff k.succ_pos]
  rcases few.lt_or_eq with fewer | power
  · exact (Decimal.digits_le d.value_strip done).trans_lt fewer
  · -- The power of ten itself has one digit more, but all of them zeros.
    have one : d.strip.value = (Decimal.mk 1 (d.exponent + (k + 1 : ℕ))).value := by
      rw [d.value_strip, Decimal.value, Decimal.value, power, add_comm, zpow_add₀ (by norm_num),
        zpow_natCast]
      push_cast
      ring
    exact (Decimal.digits_le one done).trans_lt (Nat.one_lt_pow k.succ_ne_zero (by norm_num))

end RoundingInterval

/-! ## The decimal that is printed -/

open RoundingInterval

/-- A decimal that a number owns, with the fewest digits that such a decimal can have
and no zeros at the end. Of those with so many digits it is the nearest to the number,
and the larger of two that are equally near. -/
structure IsShortest (m : ℕ) (e : ℤ) (d : Decimal) : Prop where
  owned : Owns m e d.value
  fewest : ∀ d' : Decimal, Owns m e d'.value →
    Decimal.digitCount d.digits ≤ Decimal.digitCount d'.digits
  nearest : ∀ d' : Decimal, Owns m e d'.value →
    Decimal.digitCount d'.digits = Decimal.digitCount d.digits →
    |d.value - m * 2 ^ e| ≤ |d'.value - m * 2 ^ e|
  larger : ∀ d' : Decimal, Owns m e d'.value →
    Decimal.digitCount d'.digits = Decimal.digitCount d.digits →
    |d.value - m * 2 ^ e| = |d'.value - m * 2 ^ e| → d'.value ≤ d.value
  stripped : d.digits % 10 ≠ 0

theorem IsShortest.unique {m : ℕ} {e : ℤ} {d d' : Decimal} (h : IsShortest m e d)
    (h' : IsShortest m e d') : d = d' := by
  have count := (h.fewest d' h'.owned).antisymm (h'.fewest d h.owned)
  have near := (h.nearest d' h'.owned count.symm).antisymm (h'.nearest d h.owned count)
  have value :=
    (h'.larger d h.owned count near.symm).antisymm (h.larger d' h'.owned count.symm near)
  exact Decimal.eq_of_value_eq value h.stripped h'.stripped

/-- **The shortest decimal is shortest.** -/
theorem isShortest_shortestDecimal {m : ℕ} {e : ℤ} (h : Canonical m e) (positive : 0 < m) :
    IsShortest m e (shortestDecimal .up m e) := by
  have owned := shortestDecimal_owns h positive .up
  obtain ⟨k, d, -, found, shortest, none⟩ := shortestDecimal_eq_strip h positive .up
  have count := digitCount_strip_le positive found
  rw [shortest] at owned ⊢
  have value := d.value_strip
  have some_digit := Decimal.digits_pos_of_value (value ▸ owned.pos positive)
  have nearest : ∀ d' : Decimal, Owns m e d'.value →
      Decimal.digitCount d'.digits = Decimal.digitCount d.strip.digits →
      |d.value - m * 2 ^ e| ≤ |d'.value - m * 2 ^ e| ∧
        (|d.value - m * 2 ^ e| = |d'.value - m * 2 ^ e| → d'.value ≤ d.value) := by
    intro d' owned' same
    obtain ⟨n, ownedGrid, same | ⟨lt, le⟩⟩ := exists_onGrid positive owned' (same.trans_le count)
    · rw [same]
      obtain ⟨near, up⟩ := nearest_of_nearestOnGrid positive found ownedGrid
      exact ⟨near, up rfl⟩
    · have near := (nearest_of_nearestOnGrid positive found ownedGrid).1
      rw [abs_of_nonpos (by linarith : (n * 10 ^ ((ofFinite m e).leading - k) : ℚ) - _ ≤ 0)] at near
      rw [abs_of_nonpos (by linarith : d'.value - _ ≤ 0)]
      exact ⟨by linarith, fun same => by linarith⟩
  refine ⟨owned, fun d' owned' => ?_, fun d' owned' same => ?_, fun d' owned' same => ?_,
    Decimal.strip_digits_mod some_digit⟩
  · by_contra fewer
    have some_digit' := Decimal.digitCount_pos d'.digits
    obtain ⟨j, rfl⟩ : ∃ j, k = j + 1 := ⟨k - 1, by omega⟩
    obtain ⟨n, ownedGrid, -⟩ := exists_onGrid positive owned' (k := j) (by omega)
    exact not_owns_of_nearestOnGrid positive (none j j.lt_succ_self) ownedGrid
  · rw [value]
    exact (nearest d' owned' same).1
  · rw [value]
    exact (nearest d' owned' same).2

end ScopeLisp
