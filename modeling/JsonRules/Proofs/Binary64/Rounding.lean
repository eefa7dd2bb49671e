import JsonRules.Binary64.Rounding
import JsonRules.Proofs.Ratio

/-!
# What rounding leaves as it is

Rounding depends on the rational number alone that a quotient is (`ofRatio_congr`), and a number
that has double precision already is rounded to itself (`ofRatio_ratio`), or to the integer that it
is (`ceil_of_isIntegral`). Below the greatest power of two that there is in double precision the
result is finite (`isFinite_ofRatio`).
-/

namespace JsonRules

namespace Binary64

/-- Equal quotients are rounded to the same number. -/
theorem ofRatio_congr (negative : Bool) {r s : Ratio} (hr : 0 < r.den) (hs : 0 < s.den)
    (h : r.value = s.value) : ofRatio negative r = ofRatio negative s := by
  have hzero : r.num = 0 ↔ s.num = 0 := by
    rw [← Ratio.value_eq_zero_iff hr, h, Ratio.value_eq_zero_iff hs]
  unfold ofRatio
  by_cases hnum : r.num = 0
  · rw [if_pos hnum, if_pos (hzero.1 hnum)]
  · rw [if_neg hnum, if_neg (hzero.not.1 hnum)]
    have hexponent : r.exponent = s.exponent := by
      rw [Ratio.exponent_eq (Nat.pos_of_ne_zero hnum) hr,
        Ratio.exponent_eq (Nat.pos_of_ne_zero (hzero.not.1 hnum)) hs, h]
    have hround : ∀ e, (r.scale 2 e).roundHalfEven = (s.scale 2 e).roundHalfEven := by
      intro e
      refine Ratio.roundHalfEven_congr (Ratio.den_scale_pos hr Nat.two_pos e)
        (Ratio.den_scale_pos hs Nat.two_pos e) ?_
      rw [Ratio.value_scale r Nat.two_pos, Ratio.value_scale s Nat.two_pos, h]
    simp only [hexponent, hround]

variable {x : Binary64}

theorem den_ratio_pos (x : Binary64) : 0 < x.ratio.den :=
  Ratio.den_scale_pos Nat.one_pos Nat.two_pos _

theorem value_ratio (x : Binary64) : x.ratio.value = x.significand * (2 : ℚ) ^ x.exponent := by
  rw [ratio, Ratio.value_scale _ Nat.two_pos, Ratio.value_ofNat, Nat.cast_ofNat]

/-! ## Magnitudes -/

/-- The magnitude puts the exponent over the significand. -/
theorem magnitude_eq (x : Binary64) :
    (x.exponent + 1074).toNat * exponentUnit + x.significand = x.magnitude := by
  unfold exponent significand
  by_cases h : x.magnitude < exponentUnit
  · rw [if_pos h, if_pos h]
    exact Nat.zero_add _
  · rw [if_neg h, if_neg h]
    rw [exponentUnit] at h ⊢
    omega

/-- Below the least normal number the exponent is the least one, and elsewhere the significand has
all its digits. -/
theorem significand_cases (x : Binary64) :
    (x.exponent = -1074 ∧ x.significand < 2 ^ 52) ∨
      (-1074 ≤ x.exponent ∧ 2 ^ 52 ≤ x.significand ∧ x.significand < 2 ^ 53) := by
  unfold exponent significand
  by_cases h : x.magnitude < exponentUnit
  · rw [if_pos h, if_pos h]
    exact .inl ⟨rfl, h⟩
  · rw [if_neg h, if_neg h]
    rw [exponentUnit] at h ⊢
    refine .inr ⟨?_, ?_, ?_⟩ <;> omega

theorem exponent_le (h : x.isFinite) : x.exponent ≤ 971 := by
  have hlt : x.magnitude < infinityMagnitude := of_decide_eq_true h
  have hmagnitude := x.magnitude_eq
  rw [infinityMagnitude] at hlt
  rw [exponentUnit] at hmagnitude
  rcases x.significand_cases with ⟨he, -⟩ | ⟨-, hlow, -⟩ <;> omega

theorem significand_eq_zero_iff : x.significand = 0 ↔ x.magnitude = 0 := by
  have hmagnitude := x.magnitude_eq
  rw [exponentUnit] at hmagnitude
  rcases x.significand_cases with ⟨he, -⟩ | ⟨-, hlow, -⟩ <;> omega

/-- The grid that the value of a number is rounded on is its own. -/
theorem max_log_ratio (h : x.significand ≠ 0) :
    max (-1074) (Int.log 2 x.ratio.value - 52) = x.exponent := by
  have hpos : (0 : ℚ) < 2 ^ x.exponent := zpow_pos (by norm_num) _
  have hshift : ∀ n : ℕ, (2 : ℚ) ^ (x.exponent + n) = 2 ^ n * 2 ^ x.exponent := by
    intro n
    rw [zpow_add₀ (by norm_num), zpow_natCast, mul_comm]
  have hvalue : 0 < x.ratio.value := by
    rw [value_ratio]
    exact mul_pos (Nat.cast_pos.2 (Nat.pos_of_ne_zero h)) hpos
  rcases x.significand_cases with ⟨he, hlt⟩ | ⟨he, hlow, hhigh⟩
  · have hupper : x.ratio.value < ((2 : ℕ) : ℚ) ^ (x.exponent + (52 : ℕ)) := by
      rw [value_ratio, Nat.cast_ofNat, hshift]
      exact mul_lt_mul_of_pos_right (by exact_mod_cast hlt) hpos
    have hlog := (Int.lt_zpow_iff_log_lt Nat.one_lt_two hvalue).1 hupper
    omega
  · have hlog : Int.log 2 x.ratio.value = x.exponent + (52 : ℕ) := by
      refine Ratio.log_eq_of_bounds Nat.one_lt_two ?_ ?_
      · rw [value_ratio, Nat.cast_ofNat, hshift]
        exact mul_le_mul_of_nonneg_right (by exact_mod_cast hlow) hpos.le
      · rw [value_ratio, add_assoc, Nat.cast_ofNat,
          show ((52 : ℕ) : Int) + 1 = ((53 : ℕ) : Int) from rfl, hshift]
        exact mul_lt_mul_of_pos_right (by exact_mod_cast hhigh) hpos
    omega

/-- A finite number is the nearest number of double precision to itself. -/
theorem ofRatio_ratio (h : x.isFinite) : ofRatio x.isNegative x.ratio = x := by
  have hlt : x.magnitude < infinityMagnitude := of_decide_eq_true h
  have hnum : x.ratio.num = 0 ↔ x.significand = 0 := by
    rw [← Ratio.value_eq_zero_iff x.den_ratio_pos, value_ratio, mul_eq_zero, Nat.cast_eq_zero,
      or_iff_left (zpow_ne_zero _ (by norm_num))]
  unfold ofRatio
  by_cases hzero : x.significand = 0
  · rw [if_pos (hnum.2 hzero), zero, ← significand_eq_zero_iff.1 hzero]
    exact x.ofMagnitude_isNegative_magnitude
  · rw [if_neg (hnum.not.2 hzero)]
    have hexponent := x.max_log_ratio hzero
    rw [← Ratio.exponent_eq (Nat.pos_of_ne_zero (hnum.not.2 hzero)) x.den_ratio_pos] at hexponent
    have hround : (x.ratio.scale 2 (-x.exponent)).roundHalfEven = x.significand := by
      refine Ratio.roundHalfEven_of_value_eq
        (Ratio.den_scale_pos x.den_ratio_pos Nat.two_pos _) ?_
      rw [Ratio.value_scale _ Nat.two_pos, value_ratio, Nat.cast_ofNat, mul_assoc,
        ← zpow_add₀ (by norm_num), add_neg_cancel, zpow_zero, mul_one]
    simp only [hexponent, hround, magnitude_eq]
    rw [min_eq_right hlt.le]
    exact x.ofMagnitude_isNegative_magnitude

/-! ## Numbers without a fraction -/

theorem value_ratio_of_isIntegral (h : x.isIntegral = true) : x.ratio.value = x.integralPart := by
  have hrest := Ratio.value_sub_floor x.den_ratio_pos
  rw [beq_iff_eq.1 h, Nat.cast_zero, zero_div, sub_eq_zero] at hrest
  rw [hrest, integralPart]

theorem isIntegral_of_value_eq {n : ℕ} (h : x.ratio.value = n) : x.isIntegral = true := by
  have hden : (x.ratio.den : ℚ) ≠ 0 := Nat.cast_ne_zero.2 x.den_ratio_pos.ne'
  have hrest := Ratio.value_sub_floor x.den_ratio_pos
  rw [Ratio.floor_eq, h, Nat.floor_natCast, sub_self, eq_comm, div_eq_zero_iff,
    or_iff_left hden, Nat.cast_eq_zero] at hrest
  exact beq_iff_eq.2 hrest

/-- A finite number without a fraction is not rounded up. -/
theorem ceil_of_isIntegral (hfinite : x.isFinite = true) (h : x.isIntegral = true) :
    x.ceil = x := by
  have hvalue : x.ratio.value = (Ratio.ofNat x.integralPart).value :=
    (value_ratio_of_isIntegral h).trans (Ratio.value_ofNat _).symm
  have hceil : x.ceil = ofRatio x.isNegative (.ofNat x.integralPart) := by simp [ceil, hfinite, h]
  rw [hceil, ← ofRatio_congr x.isNegative x.den_ratio_pos Nat.one_pos hvalue, ofRatio_ratio hfinite]

/-! ## Finite results -/

theorem isFinite_ofMagnitude (negative : Bool) {m : Nat} (h : m < infinityMagnitude) :
    (ofMagnitude negative m).isFinite = true := by
  have hsign : m < signUnit := Nat.lt_trans h (by decide)
  rw [isFinite, magnitude_ofMagnitude negative hsign, decide_eq_true h]

theorem isNaN_of_isFinite (h : x.isFinite = true) : x.isNaN = false :=
  decide_eq_false (Nat.lt_asymm (of_decide_eq_true h))

/-- A quotient is on its grid below the power of two behind the significands. -/
theorem roundHalfEven_scale_le {r : Ratio} (hnum : 0 < r.num) (hden : 0 < r.den) {q : Int}
    (h : r.exponent - 52 ≤ q) : (r.scale 2 (-q)).roundHalfEven ≤ 2 ^ 53 := by
  have hvalue : (r.scale 2 (-q)).value < ((2 ^ 53 : ℕ) : ℚ) := by
    rw [Ratio.value_scale _ Nat.two_pos]
    calc r.value * (2 : ℕ) ^ (-q)
        < (2 : ℚ) ^ (r.exponent + 1) * (2 : ℚ) ^ (-q) :=
          mul_lt_mul_of_pos_right (r.exponent_bounds hnum hden).2 (zpow_pos (by norm_num) _)
      _ = (2 : ℚ) ^ (r.exponent + 1 - q) := by rw [← zpow_add₀ (by norm_num), sub_eq_add_neg]
      _ ≤ (2 : ℚ) ^ (53 : Int) := zpow_le_zpow_right₀ (by norm_num) (by omega)
      _ = ((2 ^ 53 : ℕ) : ℚ) := by norm_num
  have hfloor : (r.scale 2 (-q)).floor < 2 ^ 53 := by
    rw [Ratio.floor_eq]
    exact (Nat.floor_lt' (by norm_num)).2 hvalue
  exact Nat.le_trans (Ratio.roundHalfEven_le _) hfloor

theorem isFinite_ofRatio (negative : Bool) {r : Ratio} (hden : 0 < r.den)
    (h : r.value < 2 ^ (1023 : Int)) : (ofRatio negative r).isFinite = true := by
  unfold ofRatio
  by_cases hnum : r.num = 0
  · rw [if_pos hnum]
    exact isFinite_ofMagnitude negative (by decide)
  · rw [if_neg hnum]
    have hpos := Nat.pos_of_ne_zero hnum
    have hexponent : r.exponent < 1023 := by
      have hlow := (r.exponent_bounds hpos hden).1
      exact (zpow_lt_zpow_iff_right₀ (by norm_num)).1 (lt_of_le_of_lt hlow h)
    have hround := roundHalfEven_scale_le hpos hden (le_max_right (-1074) (r.exponent - 52))
    have hgrid : (max (-1074) (r.exponent - 52) + 1074).toNat ≤ 2044 := by omega
    refine isFinite_ofMagnitude negative (Nat.lt_of_le_of_lt (Nat.min_le_right _ _) ?_)
    calc _ ≤ 2044 * exponentUnit + 2 ^ 53 :=
          Nat.add_le_add (Nat.mul_le_mul_right _ hgrid) hround
      _ < infinityMagnitude := by decide

/-- Integers of up to 64 bits are far from being too large. -/
theorem isFinite_ofInt {n : Int} (h : n.natAbs < UInt64.size) : (ofInt n).isFinite = true := by
  refine isFinite_ofRatio _ Nat.one_pos ?_
  rw [Ratio.value_ofNat]
  calc (n.natAbs : ℚ) < (UInt64.size : ℕ) := Nat.cast_lt.2 h
    _ = 2 ^ (64 : Int) := by norm_num [UInt64.size]
    _ ≤ 2 ^ (1023 : Int) := zpow_le_zpow_right₀ (by norm_num) (by decide)

end Binary64

end JsonRules
