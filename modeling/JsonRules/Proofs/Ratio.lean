import JsonRules.Ratio
import Mathlib.Algebra.Order.Field.Power
import Mathlib.Algebra.Order.Floor.Semifield
import Mathlib.Data.Int.Log
import Mathlib.Data.Rat.Floor
import Mathlib.Tactic.FieldSimp
import Mathlib.Tactic.Linarith
import Mathlib.Tactic.Positivity

/-!
# Quotients as rational numbers

A quotient of natural numbers stands for a rational number (`Ratio.value`), and whatever is computed
of it depends on that number alone, not on how far the quotient is reduced. Scaling multiplies by a
power (`value_scale`), the parts of a quotient are those of the number (`floor_eq`, `half_eq`), and
the exponent is its logarithm (`exponent_eq`). Rounding keeps the order (`roundHalfEven_mono`).
-/

namespace JsonRules

/-- Pairs of numbers in the same order compare alike. -/
theorem compare_congr {α β : Type} [LinearOrder α] [LinearOrder β] {a b : α} {c d : β}
    (hlt : a < b ↔ c < d) (hgt : b < a ↔ d < c) : compare a b = compare c d := by
  rcases lt_trichotomy a b with h | rfl | h
  · rw [compare_lt_iff_lt.2 h, compare_lt_iff_lt.2 (hlt.1 h)]
  · have hcd : c = d :=
      le_antisymm (le_of_not_gt fun h => lt_irrefl _ (hgt.2 h))
        (le_of_not_gt fun h => lt_irrefl _ (hlt.2 h))
    rw [compare_eq_iff_eq.2 rfl, compare_eq_iff_eq.2 hcd]
  · rw [compare_gt_iff_gt.2 h, compare_gt_iff_gt.2 (hgt.1 h)]

theorem power_pos {base : Nat} (h : 0 < base) (e : Int) : 0 < power base e := Nat.pow_pos h

theorem power_div_power {base : Nat} (h : 0 < base) (e : Int) :
    (power base e : ℚ) / power base (-e) = (base : ℚ) ^ e := by
  have hbase : (base : ℚ) ≠ 0 := Nat.cast_ne_zero.2 h.ne'
  have hpower : ∀ k : Int, (power base k : ℚ) = (base : ℚ) ^ (k.toNat : Int) := by
    intro k
    rw [power, zpow_natCast]
    exact Nat.cast_pow base _
  rw [hpower, hpower, ← zpow_sub₀ hbase]
  congr 1
  omega

namespace Ratio

/-- The rational number that a quotient is. -/
def value (r : Ratio) : ℚ := r.num / r.den

theorem value_ofNat (n : Nat) : (ofNat n).value = n := by simp [value, ofNat]

theorem den_scale_pos {r : Ratio} (hden : 0 < r.den) {base : Nat} (h : 0 < base) (e : Int) :
    0 < (r.scale base e).den := Nat.mul_pos hden (power_pos h _)

/-- Scaling a quotient multiplies it by a power of the base. -/
theorem value_scale (r : Ratio) {base : Nat} (h : 0 < base) (e : Int) :
    (r.scale base e).value = r.value * (base : ℚ) ^ e := by
  rw [value, scale, ← power_div_power h, value]
  push_cast
  exact mul_div_mul_comm _ _ _ _

variable {r s : Ratio}

theorem value_eq_zero_iff (hden : 0 < r.den) : r.value = 0 ↔ r.num = 0 := by
  have hne : (r.den : ℚ) ≠ 0 := Nat.cast_ne_zero.2 hden.ne'
  rw [value, div_eq_zero_iff, Nat.cast_eq_zero, or_iff_left hne]

theorem value_lt_one_iff (hden : 0 < r.den) : r.value < 1 ↔ r.num < r.den := by
  rw [value, div_lt_one (Nat.cast_pos.2 hden), Nat.cast_lt]

/-! ## Parts -/

theorem floor_eq (r : Ratio) : r.floor = ⌊r.value⌋₊ := (Nat.floor_div_eq_div r.num r.den).symm

/-- What is left of a quotient without its floor is its fraction. -/
theorem value_sub_floor (hden : 0 < r.den) : r.value - r.floor = r.rest / r.den := by
  have hne : (r.den : ℚ) ≠ 0 := Nat.cast_ne_zero.2 hden.ne'
  have hnum : (r.num : ℚ) = r.den * r.floor + r.rest := by
    rw [floor, rest]
    exact_mod_cast (Nat.div_add_mod r.num r.den).symm
  rw [value, hnum]
  field_simp
  ring

theorem half_eq (hden : 0 < r.den) : r.half = compare (2 * (r.value - ⌊r.value⌋₊)) 1 := by
  have hpos : (0 : ℚ) < r.den := Nat.cast_pos.2 hden
  rw [← floor_eq, value_sub_floor hden, ← mul_div_assoc, half]
  refine compare_congr ?_ ?_
  · rw [div_lt_one hpos]
    exact_mod_cast Iff.rfl
  · rw [one_lt_div hpos]
    exact_mod_cast Iff.rfl

/-- Equal quotients are rounded to the same number. -/
theorem roundHalfEven_congr (hr : 0 < r.den) (hs : 0 < s.den) (h : r.value = s.value) :
    r.roundHalfEven = s.roundHalfEven := by
  rw [roundHalfEven, roundHalfEven, half_eq hr, half_eq hs, floor_eq, floor_eq, h]

theorem roundHalfEven_le (r : Ratio) : r.roundHalfEven ≤ r.floor + 1 := by
  unfold roundHalfEven
  split <;> omega

theorem floor_le_roundHalfEven (r : Ratio) : r.floor ≤ r.roundHalfEven := by
  unfold roundHalfEven
  split <;> omega

/-- Rounding keeps the order of quotients. -/
theorem roundHalfEven_mono (hr : 0 < r.den) (hs : 0 < s.den) (h : r.value ≤ s.value) :
    r.roundHalfEven ≤ s.roundHalfEven := by
  have hfloor : r.floor ≤ s.floor := by
    rw [floor_eq, floor_eq]
    exact Nat.floor_mono h
  rcases Nat.lt_or_eq_of_le hfloor with hlt | heq
  · calc r.roundHalfEven ≤ r.floor + 1 := r.roundHalfEven_le
      _ ≤ s.floor := hlt
      _ ≤ s.roundHalfEven := s.floor_le_roundHalfEven
  · -- With the same floor, the fractions decide.
    have hfraction : 2 * (r.value - ⌊r.value⌋₊) ≤ 2 * (s.value - ⌊s.value⌋₊) := by
      rw [← floor_eq, ← floor_eq, heq]
      linarith
    unfold roundHalfEven
    rw [half_eq hr, half_eq hs, heq]
    rcases lt_trichotomy (2 * (r.value - ⌊r.value⌋₊)) 1 with hlow | hmiddle | hhigh
    · rw [compare_lt_iff_lt.2 hlow]
      show s.floor ≤ _
      split <;> omega
    · rw [compare_eq_iff_eq.2 hmiddle]
      rcases (hmiddle ▸ hfraction).lt_or_eq with hhigh | hmiddle'
      · rw [compare_gt_iff_gt.2 hhigh]
        show s.floor + s.floor % 2 ≤ s.floor + 1
        omega
      · rw [compare_eq_iff_eq.2 hmiddle'.symm]
    · rw [compare_gt_iff_gt.2 hhigh, compare_gt_iff_gt.2 (lt_of_lt_of_le hhigh hfraction)]

/-- A natural number is rounded to itself. -/
theorem roundHalfEven_of_value_eq (hr : 0 < r.den) {n : Nat} (h : r.value = n) :
    r.roundHalfEven = n := by
  rw [roundHalfEven_congr hr Nat.one_pos (h.trans (value_ofNat n).symm)]
  have hhalf : (ofNat n).half = .lt := by
    rw [half, rest, ofNat, Nat.mod_one]
    rfl
  rw [roundHalfEven, hhalf]
  exact Nat.div_one n

/-! ## Logarithms -/

/-- A quotient lies between the powers of two of its exponent. -/
theorem exponent_bounds (hnum : 0 < r.num) (hden : 0 < r.den) :
    (2 : ℚ) ^ r.exponent ≤ r.value ∧ r.value < (2 : ℚ) ^ (r.exponent + 1) := by
  have hpos : (0 : ℚ) < r.den := Nat.cast_pos.2 hden
  have hnumLow : (2 : ℚ) ^ (r.num.log2 : Int) ≤ r.num := by
    rw [zpow_natCast]
    exact_mod_cast Nat.log2_self_le hnum.ne'
  have hnumHigh : (r.num : ℚ) < (2 : ℚ) ^ (r.num.log2 + 1 : Int) := by
    exact_mod_cast @Nat.lt_log2_self r.num
  have hdenLow : (2 : ℚ) ^ (r.den.log2 : Int) ≤ r.den := by
    rw [zpow_natCast]
    exact_mod_cast Nat.log2_self_le hden.ne'
  have hdenHigh : (r.den : ℚ) < (2 : ℚ) ^ (r.den.log2 + 1 : Int) := by
    exact_mod_cast @Nat.lt_log2_self r.den
  have htwo : ∀ e : Int, (0 : ℚ) < 2 ^ e := fun e => zpow_pos (by norm_num) e
  have hhigh : r.value < (2 : ℚ) ^ ((r.num.log2 : Int) - r.den.log2 + 1) := by
    rw [value, div_lt_iff₀ hpos]
    calc (r.num : ℚ) < (2 : ℚ) ^ (r.num.log2 + 1 : Int) := hnumHigh
      _ = (2 : ℚ) ^ ((r.num.log2 : Int) - r.den.log2 + 1) * 2 ^ (r.den.log2 : Int) := by
        rw [← zpow_add₀ (by norm_num)]
        congr 1
        omega
      _ ≤ _ := mul_le_mul_of_nonneg_left hdenLow (htwo _).le
  have hlow : (2 : ℚ) ^ ((r.num.log2 : Int) - r.den.log2 - 1) ≤ r.value := by
    rw [value, le_div_iff₀ hpos]
    calc (2 : ℚ) ^ ((r.num.log2 : Int) - r.den.log2 - 1) * r.den
        ≤ (2 : ℚ) ^ ((r.num.log2 : Int) - r.den.log2 - 1) * 2 ^ (r.den.log2 + 1 : Int) :=
          mul_le_mul_of_nonneg_left hdenHigh.le (htwo _).le
      _ = (2 : ℚ) ^ (r.num.log2 : Int) := by
        rw [← zpow_add₀ (by norm_num)]
        congr 1
        omega
      _ ≤ r.num := hnumLow
  -- The comparison of the scaled quotient decides between the two candidates.
  unfold exponent
  generalize (r.num.log2 : Int) - r.den.log2 = e at *
  have hscaled : (r.scale 2 (-e)).num < (r.scale 2 (-e)).den ↔ r.value < (2 : ℚ) ^ e := by
    rw [← value_lt_one_iff (den_scale_pos hden Nat.two_pos _), value_scale r Nat.two_pos,
      Nat.cast_ofNat, zpow_neg, ← div_eq_mul_inv, div_lt_one (htwo e)]
  by_cases h : (r.scale 2 (-e)).num < (r.scale 2 (-e)).den
  · simp only [if_pos h, sub_add_cancel]
    exact ⟨hlow, hscaled.1 h⟩
  · simp only [if_neg h]
    exact ⟨le_of_not_gt fun hlt => h (hscaled.2 hlt), hhigh⟩

/-- The number that two powers of a base in a row are around is determined by its logarithm. -/
theorem log_eq_of_bounds {base : Nat} (hbase : 1 < base) {q : ℚ} {e : Int}
    (hlow : (base : ℚ) ^ e ≤ q) (hhigh : q < (base : ℚ) ^ (e + 1)) : Int.log base q = e := by
  have hq : 0 < q := lt_of_lt_of_le (zpow_pos (by exact_mod_cast Nat.zero_lt_of_lt hbase) e) hlow
  have h1 := (Int.zpow_le_iff_le_log hbase hq).1 hlow
  have h2 := (Int.lt_zpow_iff_log_lt hbase hq).1 hhigh
  omega

theorem exponent_eq (hnum : 0 < r.num) (hden : 0 < r.den) : r.exponent = Int.log 2 r.value := by
  obtain ⟨hlow, hhigh⟩ := exponent_bounds hnum hden
  exact (log_eq_of_bounds Nat.one_lt_two (by exact_mod_cast hlow) (by exact_mod_cast hhigh)).symm

end Ratio

end JsonRules
