import JsonRules.Decimal.Shortest
import JsonRules.Proofs.Binary64.Rounding

/-!
# Decimals that read back

A decimal is a rational number (`Decimal.value`), and reading it as a number of double precision
depends on that number alone (`toBinary64_congr`): the position of the first digit, by which
decimals out of range are decided, is its logarithm. The exact value of a finite number reads back
as the number (`toBinary64_ofBinary64`), and so does the shortest decimal (`toBinary64_shortest`).
-/

namespace JsonRules

namespace Decimal

/-- The rational number that a decimal is. -/
def value (d : Decimal) : ℚ := d.coefficient * (10 : ℚ) ^ d.exponent

theorem value_ratio (d : Decimal) : d.ratio.value = d.value := by
  rw [ratio, Ratio.value_scale _ (by norm_num), Ratio.value_ofNat, Nat.cast_ofNat, value]

theorem den_ratio_pos (d : Decimal) : 0 < d.ratio.den :=
  Ratio.den_scale_pos Nat.one_pos (by norm_num) _

theorem value_eq_zero_iff {d : Decimal} : d.value = 0 ↔ d.coefficient = 0 := by
  rw [value, mul_eq_zero, Nat.cast_eq_zero, or_iff_left (zpow_ne_zero _ (by norm_num))]

/-! ## The position of the first digit -/

theorem pow_length_toDigits_bounds {n : Nat} (h : n ≠ 0) :
    10 ^ ((Nat.toDigits 10 n).length - 1) ≤ n ∧ n < 10 ^ (Nat.toDigits 10 n).length := by
  have hpos : 0 < (Nat.toDigits 10 n).length := Nat.length_toDigits_pos
  refine ⟨?_, (Nat.length_toDigits_le_iff (by norm_num) hpos).1 (Nat.le_refl _)⟩
  rcases Nat.eq_zero_or_pos ((Nat.toDigits 10 n).length - 1) with hzero | hlength
  · rw [hzero]
    exact Nat.pos_of_ne_zero h
  · refine Nat.le_of_not_lt fun hlt => ?_
    have hle := (Nat.length_toDigits_le_iff (by norm_num) hlength).2 hlt
    omega

/-- A positive decimal lies between the powers of ten before and at its point. -/
theorem point_bounds {d : Decimal} (h : d.coefficient ≠ 0) :
    (10 : ℚ) ^ (d.point - 1) ≤ d.value ∧ d.value < (10 : ℚ) ^ d.point := by
  have hpos : (0 : ℚ) < 10 ^ d.exponent := zpow_pos (by norm_num) _
  obtain ⟨hlow, hhigh⟩ := pow_length_toDigits_bounds h
  have hlength : 0 < (Nat.toDigits 10 d.coefficient).length := Nat.length_toDigits_pos
  have hpoint : d.point = ((Nat.toDigits 10 d.coefficient).length : Int) + d.exponent := rfl
  rw [hpoint]
  generalize (Nat.toDigits 10 d.coefficient).length = n at *
  have hshift : ((n : Int) + d.exponent - 1) = ((n - 1 : ℕ) : Int) + d.exponent := by omega
  rw [hshift, zpow_add₀ (by norm_num), zpow_add₀ (by norm_num), zpow_natCast, zpow_natCast, value]
  constructor
  · exact mul_le_mul_of_nonneg_right (by exact_mod_cast hlow) hpos.le
  · exact mul_lt_mul_of_pos_right (by exact_mod_cast hhigh) hpos

theorem point_eq_log {d : Decimal} (h : d.coefficient ≠ 0) :
    d.point = Int.log 10 d.value + 1 := by
  obtain ⟨hlow, hhigh⟩ := point_bounds h
  have hlog : Int.log 10 d.value = d.point - 1 := by
    refine Ratio.log_eq_of_bounds (by norm_num) (by exact_mod_cast hlow) ?_
    rw [sub_add_cancel]
    exact_mod_cast hhigh
  rw [hlog, sub_add_cancel]

/-! ## Reading as double precision -/

/-- Equal decimals read as the same number. -/
theorem toBinary64_congr (negative : Bool) {d d' : Decimal} (h : d.value = d'.value) :
    d.toBinary64 negative = d'.toBinary64 negative := by
  have hzero : d.coefficient = 0 ↔ d'.coefficient = 0 := by
    rw [← value_eq_zero_iff, h, value_eq_zero_iff]
  have hratio : Binary64.ofRatio negative d.ratio = Binary64.ofRatio negative d'.ratio :=
    Binary64.ofRatio_congr negative d.den_ratio_pos d'.den_ratio_pos
      (by rw [value_ratio, value_ratio, h])
  unfold toBinary64
  by_cases hcoefficient : d.coefficient = 0
  · rw [if_pos hcoefficient, if_pos (hzero.1 hcoefficient)]
  · have hpoint : d.point = d'.point := by
      rw [point_eq_log hcoefficient, point_eq_log (hzero.not.1 hcoefficient), h]
    rw [if_neg hcoefficient, if_neg (hzero.not.1 hcoefficient), hpoint, hratio]

variable {x : Binary64}

/-- The exact value of a number is its value. -/
theorem value_ofBinary64 (x : Binary64) : (ofBinary64 x).value = x.ratio.value := by
  rw [Binary64.value_ratio, value, ofBinary64]
  push_cast
  rcases le_total 0 x.exponent with h | h
  · obtain ⟨n, hn⟩ := Int.eq_ofNat_of_zero_le h
    simp [hn, power]
  · obtain ⟨n, hn⟩ := Int.eq_ofNat_of_zero_le (Int.neg_nonneg_of_nonpos h)
    have hexponent : x.exponent = -n := by omega
    have hsplit : (10 : ℚ) ^ n = 5 ^ n * 2 ^ n := by
      rw [← mul_pow]
      norm_num
    simp only [hexponent, power, neg_neg, Int.toNat_natCast, Int.toNat_neg_natCast, Nat.pow_eq,
      pow_zero, Nat.cast_one, mul_one, zpow_neg, zpow_natCast, Nat.cast_pow, Nat.cast_ofNat,
      min_eq_left (show -(n : Int) ≤ 0 by omega), hsplit]
    field_simp

theorem ten_pow_lt_two_pow : (10 : ℚ) ^ (-324 : Int) < (2 : ℚ) ^ (-1074 : Int) := by
  have hnat : 2 ^ 1074 < 10 ^ 324 := by decide +kernel
  have hrat : (2 : ℚ) ^ 1074 < 10 ^ 324 := by exact_mod_cast hnat
  exact (inv_lt_inv₀ (by positivity) (by positivity)).2 hrat

theorem two_pow_lt_ten_pow : (2 : ℚ) ^ 53 * 2 ^ (971 : Int) < (10 : ℚ) ^ (309 : Int) := by
  have hnat : 2 ^ 53 * 2 ^ 971 < 10 ^ 309 := by decide +kernel
  exact_mod_cast hnat

/-- The values of finite numbers other than zero are within the bounds that reading decides by. -/
theorem value_ratio_bounds (h : x.isFinite) (hzero : x.significand ≠ 0) :
    (10 : ℚ) ^ (-324 : Int) < x.ratio.value ∧ x.ratio.value < (10 : ℚ) ^ (309 : Int) := by
  have hexponent := Binary64.exponent_le h
  have hone : (1 : ℚ) ≤ x.significand := by exact_mod_cast Nat.pos_of_ne_zero hzero
  have hlow : (-1074 : Int) ≤ x.exponent ∧ x.significand < 2 ^ 53 := by
    rcases x.significand_cases with ⟨he, hlt⟩ | ⟨he, -, hlt⟩
    · exact ⟨he.ge, Nat.lt_trans hlt (by norm_num)⟩
    · exact ⟨he, hlt⟩
  have hpos : (0 : ℚ) < 2 ^ x.exponent := zpow_pos (by norm_num) _
  rw [Binary64.value_ratio]
  constructor
  · calc (10 : ℚ) ^ (-324 : Int) < (2 : ℚ) ^ (-1074 : Int) := ten_pow_lt_two_pow
      _ ≤ 2 ^ x.exponent := zpow_le_zpow_right₀ (by norm_num) hlow.1
      _ ≤ x.significand * 2 ^ x.exponent := le_mul_of_one_le_left hpos.le hone
  · calc (x.significand : ℚ) * 2 ^ x.exponent < 2 ^ 53 * 2 ^ x.exponent :=
          mul_lt_mul_of_pos_right (by exact_mod_cast hlow.2) hpos
      _ ≤ 2 ^ 53 * 2 ^ (971 : Int) :=
          mul_le_mul_of_nonneg_left (zpow_le_zpow_right₀ (by norm_num) hexponent) (by norm_num)
      _ < 10 ^ (309 : Int) := two_pow_lt_ten_pow

/-- The exact value of a finite number reads back as the number. -/
theorem toBinary64_ofBinary64 (h : x.isFinite) (hzero : x.significand ≠ 0) :
    (ofBinary64 x).toBinary64 x.isNegative = x := by
  obtain ⟨hlow, hhigh⟩ := value_ratio_bounds h hzero
  have hcoefficient : (ofBinary64 x).coefficient ≠ 0 := by
    intro hcoefficient
    rw [← value_eq_zero_iff, value_ofBinary64] at hcoefficient
    exact absurd hcoefficient (ne_of_gt (lt_trans (zpow_pos (by norm_num) _) hlow))
  -- the value is far enough from the limits for the point of its decimal to be within them too
  obtain ⟨hfirst, hpoint⟩ := point_bounds hcoefficient
  rw [value_ofBinary64] at hfirst hpoint
  have hle : ¬ 309 < (ofBinary64 x).point := by
    intro hlt
    have hpow := zpow_le_zpow_right₀ (a := (10 : ℚ)) (by norm_num) (Int.le_sub_one_of_lt hlt)
    exact absurd (lt_of_le_of_lt (hpow.trans hfirst) hhigh) (lt_irrefl _)
  have hge : ¬ (ofBinary64 x).point ≤ -324 := by
    intro hsmall
    have hpow := zpow_le_zpow_right₀ (a := (10 : ℚ)) (by norm_num) hsmall
    exact absurd (lt_trans (lt_of_lt_of_le hpoint hpow) hlow) (lt_irrefl _)
  rw [toBinary64, if_neg hcoefficient, if_neg hle, if_neg hge,
    Binary64.ofRatio_congr _ (den_ratio_pos _) x.den_ratio_pos
      (by rw [value_ratio, value_ofBinary64])]
  exact Binary64.ofRatio_ratio h

/-- A decimal of the same value as a finite number reads back as the number. -/
theorem toBinary64_of_value_eq {d : Decimal} (h : x.isFinite) (hvalue : d.value = x.ratio.value) :
    d.toBinary64 x.isNegative = x := by
  by_cases hzero : x.significand = 0
  · have hmagnitude : x.magnitude = 0 := Binary64.significand_eq_zero_iff.1 hzero
    have hcoefficient : d.coefficient = 0 := by
      rw [← value_eq_zero_iff, hvalue, Binary64.value_ratio, hzero, Nat.cast_zero, zero_mul]
    rw [toBinary64, if_pos hcoefficient, Binary64.zero, ← hmagnitude]
    exact x.ofMagnitude_isNegative_magnitude
  · rw [toBinary64_congr _ (hvalue.trans (value_ofBinary64 x).symm)]
    exact toBinary64_ofBinary64 h hzero

/-! ## Shortest decimals -/

variable {tie : Tie} {d : Decimal}

/-- A neighbour on a grid is taken only if it reads back. -/
theorem toBinary64_of_neighbour? {exponent : Int} (h : neighbour? tie x exponent = some d) :
    d.toBinary64 x.isNegative = x := by
  unfold neighbour? at h
  dsimp only at h
  split at h
  · exact absurd h.symm (Option.some_ne_none d)
  · rename_i hlower _
    exact Option.some.inj h ▸ of_decide_eq_true hlower
  · rename_i _ hupper
    exact Option.some.inj h ▸ of_decide_eq_true hupper
  · rename_i hlower hupper
    split at h
    · exact Option.some.inj h ▸ of_decide_eq_true hlower
    · split at h
      · exact Option.some.inj h ▸ of_decide_eq_true hupper
      · exact Option.some.inj h ▸ of_decide_eq_true hlower
    · exact Option.some.inj h ▸ of_decide_eq_true hupper

theorem toBinary64_searchShortest (h : x.isFinite) (hzero : x.significand ≠ 0) (tie : Tie)
    (point : Int) (fuel count : Nat) :
    (searchShortest tie x point fuel count).toBinary64 x.isNegative = x := by
  induction fuel generalizing count with
  | zero => exact toBinary64_ofBinary64 h hzero
  | succ fuel ih =>
    unfold searchShortest
    split
    · rename_i d hd
      exact toBinary64_of_neighbour? hd
    · exact ih (count + 1)

/-- The shortest decimal of a finite number other than zero reads back as the number. -/
theorem toBinary64_shortest (h : x.isFinite) (hzero : x.significand ≠ 0) (tie : Tie) :
    (shortest tie x).toBinary64 x.isNegative = x :=
  toBinary64_searchShortest h hzero tie _ 17 1

theorem coefficient_shortest_ne_zero (h : x.isFinite) (hzero : x.significand ≠ 0) (tie : Tie) :
    (shortest tie x).coefficient ≠ 0 := by
  intro hcoefficient
  have hread := toBinary64_shortest h hzero tie
  rw [toBinary64, if_pos hcoefficient] at hread
  refine hzero (Binary64.significand_eq_zero_iff.2 ?_)
  rw [← hread, Binary64.zero]
  exact Binary64.magnitude_ofMagnitude _ (by norm_num [Binary64.signUnit])

end Decimal

end JsonRules
