/-
ScopeLisp.Proofs.Number.Shortest — the shortest decimal of a number reads back.

The interval that printing works with is the one that the number owns
(`holds_ofFinite`). What is found on a grid lies in it, and on a grid of seventeen
digits something is always found, since there the distance of two points is less
than a unit in the last place of the number. So the shortest decimal is one that
the number owns (`shortestDecimal_owns`).
-/
import ScopeLisp.Number.Shortest
import ScopeLisp.Proofs.Number.Rounding
import Mathlib.Data.Nat.Cast.Order.Field

namespace ScopeLisp

open Binary64

/-! ## Decimals -/

namespace Decimal

/-- What a decimal stands for. -/
def value (d : Decimal) : ℚ := d.digits * 10 ^ d.exponent

/-- Zeros at the end do not count. -/
theorem value_strip (d : Decimal) : d.strip.value = d.value := by
  fun_induction strip d with
  | case1 d h ih =>
    rw [ih, value, value]
    obtain ⟨n, hn⟩ : ∃ n, d.digits = 10 * n := ⟨d.digits / 10, by omega⟩
    have half : d.digits / 10 = n := by omega
    rw [half, hn, zpow_add₀ (by norm_num), zpow_one]
    push_cast
    ring
  | case2 => rfl

theorem lt_pow_digitCount (n : ℕ) : n < 10 ^ digitCount n :=
  (Nat.length_toDigits_le_iff (by norm_num) Nat.length_toDigits_pos).1 le_rfl

theorem pow_digitCount_le {n : ℕ} (h : 0 < n) : 10 ^ (digitCount n - 1) ≤ n := by
  rcases Nat.lt_or_ge 1 (digitCount n) with long | short
  · by_contra less
    have := (Nat.length_toDigits_le_iff (by norm_num) (by omega)).2 (not_le.1 less)
    rw [digitCount] at *
    omega
  · rw [Nat.sub_eq_zero_of_le short]
    exact h

end Decimal

/-! ## Intervals -/

namespace RoundingInterval

variable {r : RoundingInterval}

/-- The interval holds a ratio. -/
def Holds (r : RoundingInterval) (x : ℚ) : Prop :=
  if r.closed then (r.low : ℚ) ≤ x * r.unit ∧ x * r.unit ≤ r.high
  else (r.low : ℚ) < x * r.unit ∧ x * r.unit < r.high

/-- The points of a grid that are found in the interval are those it holds. -/
theorem contains_onGrid (r : RoundingInterval) (n : ℕ) (E : ℤ) :
    (r.onGrid E).contains (n * (r.onGrid E).unit) = true ↔ r.Holds (n * 10 ^ E) := by
  cases E with
  | ofNat k =>
    have point : (n * 10 ^ Int.ofNat k : ℚ) * r.unit = (n * (r.unit * tenTo k) : ℕ) := by
      push_cast [tenTo_eq]
      simp
      ring
    rw [Holds, point]
    norm_cast
    cases h : r.closed <;> simp [contains, onGrid, h]
  | negSucc k =>
    have scale : (0 : ℚ) < tenTo (k + 1) := by exact_mod_cast tenTo_pos (k + 1)
    have point : (n * 10 ^ Int.negSucc k : ℚ) * r.unit = (n * r.unit : ℕ) / tenTo (k + 1) := by
      push_cast [tenTo_eq, zpow_negSucc]
      ring
    rw [Holds, point, le_div_iff₀ scale, div_le_iff₀ scale, lt_div_iff₀ scale, div_lt_iff₀ scale]
    norm_cast
    cases h : r.closed <;> simp [contains, onGrid, h]

/-- What is found on a grid lies on it and in the interval. -/
theorem holds_of_nearestOnGrid {tie : Tie} {E : ℤ} {d' : Decimal}
    (h : r.nearestOnGrid tie E = some d') : r.Holds d'.value := by
  have found : ∀ {n : ℕ} {d : Decimal},
      (if (r.onGrid E).contains (n * (r.onGrid E).unit) then some (Decimal.mk n E) else none) =
        some d → r.Holds d.value := by
    intro n d h
    obtain ⟨inside, same⟩ := Option.ite_none_right_eq_some.1 h
    obtain rfl := Option.some.inj same
    exact (contains_onGrid r n E).1 inside
  simp only [nearestOnGrid] at h
  split at h
  next lower _ => exact found (lower.trans h)
  next _ upper => exact found (upper.trans h)
  next => cases h
  next d e lower upper =>
    have either : some d = some d' ∨ some e = some d' := by
      cases tie <;> dsimp only at h <;> split_ifs at h <;> simp [h]
    rcases either with h | h
    · exact found (lower.trans h)
    · exact found (upper.trans h)

/-- The last point of a grid up to the number. -/
def under (r : RoundingInterval) (E : ℤ) : ℕ := (r.onGrid E).value / (r.onGrid E).unit

/-- If one of the two points of a grid beside the number lies in the interval, something
is found there. -/
theorem isSome_nearestOnGrid {E : ℤ} (tie : Tie)
    (h : r.Holds (r.under E * 10 ^ E) ∨ r.Holds ((r.under E + 1 : ℕ) * 10 ^ E)) :
    (r.nearestOnGrid tie E).isSome = true := by
  rw [← contains_onGrid, ← contains_onGrid, under] at h
  simp only [nearestOnGrid]
  split
  · rfl
  · rfl
  next lower upper => simp_all
  next => split_ifs <;> cases tie <;> rfl

/-- The number as it stands on a grid. -/
theorem onGrid_value (r : RoundingInterval) (E : ℤ) :
    ((r.onGrid E).value / (r.onGrid E).unit : ℚ) = r.value / r.unit * 10 ^ (-E) := by
  cases E with
  | ofNat k =>
    push_cast [onGrid, tenTo_eq]
    rw [Int.ofNat_eq_natCast, zpow_neg, zpow_natCast, div_mul_eq_div_div, div_eq_mul_inv]
  | negSucc k =>
    push_cast [onGrid, tenTo_eq]
    rw [Int.neg_negSucc, zpow_natCast]
    ring

/-- The leading digit does not exceed the number. -/
theorem pow_leading_le (hvalue : 0 < r.value) (hunit : 0 < r.unit) :
    (10 : ℚ) ^ r.leading ≤ r.value / r.unit := by
  have hunit' : (0 : ℚ) < r.unit := by exact_mod_cast hunit
  rw [leading]
  split_ifs with large
  · have whole : 0 < r.value / r.unit := Nat.div_pos large hunit
    have digits := Decimal.pow_digitCount_le whole
    have some_digit : 1 ≤ Decimal.digitCount (r.value / r.unit) := Nat.length_toDigits_pos
    rw [show (Decimal.digitCount (r.value / r.unit) : ℤ) - 1 =
      ((Decimal.digitCount (r.value / r.unit) - 1 : ℕ) : ℤ) by omega, zpow_natCast,
      le_div_iff₀ hunit']
    exact_mod_cast (Nat.mul_le_mul_right _ digits).trans (Nat.div_mul_le_self _ _)
  · have digits := Decimal.lt_pow_digitCount ((r.unit + r.value - 1) / r.value - 1)
    generalize Decimal.digitCount _ = k at digits
    have : r.unit ≤ 10 ^ k * r.value := by
      have above := Nat.lt_mul_div_succ (r.unit + r.value - 1) hvalue
      rw [Nat.mul_add, Nat.mul_one] at above
      have bound : (r.unit + r.value - 1) / r.value ≤ 10 ^ k := by omega
      have := Nat.mul_le_mul_left r.value bound
      rw [Nat.mul_comm (10 ^ k)]
      omega
    rw [zpow_neg, zpow_natCast, inv_le_comm₀ (by positivity) (by positivity), inv_div,
      div_le_iff₀ (by exact_mod_cast hvalue)]
    exact_mod_cast this

/-! ## The interval of a number -/

variable {m : ℕ} {e : ℤ}

theorem unit_pos (m : ℕ) (e : ℤ) : 0 < (ofFinite m e).unit := scaleByTwo_den_pos Nat.one_pos _

theorem onGrid_unit_pos (hunit : 0 < r.unit) (E : ℤ) : 0 < (r.onGrid E).unit := by
  cases E with
  | ofNat k => exact Nat.mul_pos hunit (tenTo_pos k)
  | negSucc k => exact hunit

/-- What stands in the middle of the interval is the number. -/
theorem value_ofFinite (m : ℕ) (e : ℤ) :
    ((ofFinite m e).value / (ofFinite m e).unit : ℚ) = m * 2 ^ e := by
  have scale := ratio_scaleByTwo 1 1 (e - 2)
  rw [ratio, zpow_sub₀ two_ne_zero] at scale
  simp only [ofFinite, Nat.cast_mul, mul_div_assoc, scale]
  norm_num
  ring

theorem value_pos (positive : 0 < m) : 0 < (ofFinite m e).value := by
  have value := value_ofFinite m e
  refine Nat.pos_of_ne_zero fun zero => ?_
  rw [zero, Nat.cast_zero, zero_div] at value
  have positive' : (0 : ℚ) < m := by exact_mod_cast positive
  have : (0 : ℚ) < m * 2 ^ e := by positivity
  linarith

/-- The interval is what the number owns. -/
theorem holds_ofFinite (positive : 0 < m) {x : ℚ} : (ofFinite m e).Holds x ↔ Owns m e x := by
  have unit : (0 : ℚ) < (ofFinite m e).unit := by exact_mod_cast unit_pos m e
  have scale := ratio_scaleByTwo 1 1 (e - 2)
  have two : (2 : ℚ) ^ (e - 2) = 2 ^ e / 4 := by
    rw [zpow_sub₀ two_ne_zero]
    norm_num
  have den : ((scaleByTwo 1 1 (e - 2)).2 : ℚ) ≠ 0 := unit.ne'
  rw [ratio, div_eq_iff den, two, Nat.cast_one, div_one, one_mul] at scale
  have low : ((ofFinite m e).low : ℚ) = (m - below m e) * 2 ^ e * (ofFinite m e).unit := by
    have form : (ofFinite m e).low =
        (4 * m - if m = 2 ^ 52 ∧ e ≠ -1074 then 1 else 2) * (scaleByTwo 1 1 (e - 2)).1 := rfl
    have hunit : (ofFinite m e).unit = (scaleByTwo 1 1 (e - 2)).2 := rfl
    rw [form, hunit, below]
    by_cases power : m = 2 ^ 52 ∧ e ≠ -1074
    · rw [if_pos power, if_pos power, Nat.cast_mul, Nat.cast_sub (by omega), scale]
      push_cast
      ring
    · rw [if_neg power, if_neg power, Nat.cast_mul, Nat.cast_sub (by omega), scale]
      push_cast
      ring
  have high : ((ofFinite m e).high : ℚ) = (m + 1 / 2) * 2 ^ e * (ofFinite m e).unit := by
    simp only [ofFinite] at scale ⊢
    rw [Nat.cast_mul, scale]
    push_cast
    ring
  have closed : (ofFinite m e).closed = true ↔ m % 2 = 0 := by simp [ofFinite]
  rw [Holds, low, high, mul_le_mul_iff_left₀ unit, mul_le_mul_iff_left₀ unit,
    mul_lt_mul_iff_left₀ unit, mul_lt_mul_iff_left₀ unit]
  split_ifs with even
  · exact ⟨fun h => ⟨h.1, h.2, .inl (closed.1 even)⟩, fun h => ⟨h.low, h.high⟩⟩
  · exact ⟨fun h => ⟨h.1.le, h.2.le, .inr h⟩, fun h => h.strict.resolve_left (mt closed.2 even)⟩

end RoundingInterval

open RoundingInterval

/-- A grid with points at most `10 ^ -16` of the number apart has one that the number
owns. -/
theorem owns_of_fine {m n : ℕ} {e : ℤ} {g : ℚ} (h : Canonical m e) (fine : g * 10 ^ 16 ≤ m * 2 ^ e)
    (under : n * g ≤ m * 2 ^ e) (above : m * 2 ^ e < (n + 1) * g) :
    Owns m e (n * g) ∨ Owns m e ((n + 1) * g) := by
  have unit : (0 : ℚ) < 2 ^ e := by positivity
  have inside : ∀ {x : ℚ}, m * 2 ^ e - below m e * 2 ^ e < x → x < m * 2 ^ e + 2 ^ e / 2 →
      Owns m e x := by
    intro x low high
    have low : (m - below m e) * 2 ^ e < x := by linarith
    have high : x < (m + 1 / 2) * 2 ^ e := by linarith
    exact ⟨low.le, high.le, .inr ⟨low, high⟩⟩
  have short : (m : ℚ) * 2 ^ e ≤ 2 ^ 53 * 2 ^ e :=
    mul_le_mul_of_nonneg_right (by exact_mod_cast h.mantissa.le) unit.le
  have depth : 0 < below m e * 2 ^ e := mul_pos (below_pos m e) unit
  by_cases near : (n + 1) * g < m * 2 ^ e + 2 ^ e / 2
  · exact .inr (inside (by linarith) near)
  · refine .inl (inside ?_ (by linarith))
    rw [below]
    split_ifs with power
    · rw [power.1] at near fine under
      push_cast at near fine under
      exfalso
      linarith
    · linarith

/-- The two points of a grid beside the number. -/
theorem under_le_lt (m : ℕ) (e E : ℤ) :
    ((ofFinite m e).under E * 10 ^ E : ℚ) ≤ m * 2 ^ e ∧
      m * 2 ^ e < ((ofFinite m e).under E + 1 : ℚ) * 10 ^ E := by
  have grid : (0 : ℚ) < 10 ^ E := by positivity
  have onGrid := onGrid_value (ofFinite m e) E
  rw [value_ofFinite, zpow_neg, ← div_eq_mul_inv] at onGrid
  have gridUnit := onGrid_unit_pos (unit_pos m e) E
  rw [under]
  generalize ((ofFinite m e).onGrid E).value = v at *
  generalize ((ofFinite m e).onGrid E).unit = u at *
  have low : ((v / u : ℕ) : ℚ) ≤ v / u := Nat.cast_div_le
  have high : (v / u : ℚ) < (v / u : ℕ) + 1 := by
    rw [div_lt_iff₀ (by exact_mod_cast gridUnit), mul_comm]
    exact_mod_cast Nat.lt_mul_div_succ v gridUnit
  rw [onGrid] at low high
  exact ⟨(le_div_iff₀ grid).1 low, (div_lt_iff₀ grid).1 high⟩

/-- A grid of seventeen digits always has a decimal that the number owns. -/
theorem isSome_nearestOnGrid_seventeen {m : ℕ} {e : ℤ} (h : Canonical m e) (positive : 0 < m)
    (tie : Tie) :
    ((ofFinite m e).nearestOnGrid tie ((ofFinite m e).leading - (16 : ℕ))).isSome = true := by
  have leading := pow_leading_le (value_pos positive (e := e)) (unit_pos m e)
  obtain ⟨E, hE⟩ : ∃ E, E = (ofFinite m e).leading - (16 : ℕ) := ⟨_, rfl⟩
  obtain ⟨low, high⟩ := under_le_lt m e E
  rw [← hE]
  refine isSome_nearestOnGrid tie ?_
  rw [holds_ofFinite positive, holds_ofFinite positive, Nat.cast_succ]
  refine owns_of_fine h ?_ low high
  rw [value_ofFinite, show (ofFinite m e).leading = E + (16 : ℕ) by omega,
    zpow_add₀ (by norm_num), zpow_natCast] at leading
  exact leading

/-- The shortest decimal is what is found on the first grid on which something is. -/
theorem shortestDecimal_eq_strip {m : ℕ} {e : ℤ} (h : Canonical m e) (positive : 0 < m)
    (tie : Tie) :
    ∃ (k : ℕ) (d : Decimal), k ≤ 16 ∧
      (ofFinite m e).nearestOnGrid tie ((ofFinite m e).leading - k) = some d ∧
      shortestDecimal tie m e = d.strip ∧
      ∀ j : ℕ, j < k → (ofFinite m e).nearestOnGrid tie ((ofFinite m e).leading - j) = none := by
  have some_found : ((List.range 17).findSome? fun k : ℕ =>
      (ofFinite m e).nearestOnGrid tie ((ofFinite m e).leading - k)).isSome = true :=
    List.findSome?_isSome_iff.2 ⟨16, by simp, isSome_nearestOnGrid_seventeen h positive tie⟩
  obtain ⟨d, hd⟩ := Option.isSome_iff_exists.1 some_found
  obtain ⟨before, k, after, range, found, none⟩ := List.findSome?_eq_some_iff.1 hd
  rw [List.range_eq_range'] at range
  obtain ⟨i, -, rfl, tail⟩ := List.range'_eq_append_iff.1 range
  obtain ⟨same, long, -⟩ := List.range'_eq_cons_iff.1 tail.symm
  obtain rfl : k = i := by omega
  refine ⟨k, d, by omega, found, ?_, fun j hj => none j (by simp [List.mem_range'_1, hj])⟩
  rw [shortestDecimal, hd, Option.getD_some]

/-- **The shortest decimal of a number is one that the number owns.** -/
theorem shortestDecimal_owns {m : ℕ} {e : ℤ} (h : Canonical m e) (positive : 0 < m) (tie : Tie) :
    Owns m e (shortestDecimal tie m e).value := by
  obtain ⟨k, d, -, found, shortest, -⟩ := shortestDecimal_eq_strip h positive tie
  rw [shortest, Decimal.value_strip, ← holds_ofFinite positive]
  exact holds_of_nearestOnGrid found

end ScopeLisp
