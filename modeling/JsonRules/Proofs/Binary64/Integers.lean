import JsonRules.Proofs.Binary64.Order

/-!
# Integers in double precision

Rounding keeps the order of what is rounded (`magnitude_ofRatio_mono`), and so does the conversion
of integers, although it makes the same number of different integers beyond `2 ^ 53`
(`key_ofInt_mono`). It gives a zero of no integer but zero (`isZero_ofInt_iff`), and a fraction of
none (`isIntegral_ofRatio`).
-/

namespace JsonRules

namespace Binary64

/-! ## Rounding -/

section Rounding

variable {r s : Ratio}

theorem magnitude_ofRatio (negative : Bool) (h : r.num ≠ 0) :
    (ofRatio negative r).magnitude =
      min infinityMagnitude ((max (-1074) (r.exponent - 52) + 1074).toNat * exponentUnit +
        (r.scale 2 (-(max (-1074) (r.exponent - 52)))).roundHalfEven) := by
  rw [ofRatio, if_neg h]
  exact magnitude_ofMagnitude negative (Nat.lt_of_le_of_lt (Nat.min_le_left _ _) (by decide))

theorem isNegative_ofRatio (negative : Bool) (r : Ratio) :
    (ofRatio negative r).isNegative = negative := by
  unfold ofRatio
  split
  · exact isNegative_ofMagnitude negative (by decide)
  · exact isNegative_ofMagnitude negative (Nat.lt_of_le_of_lt (Nat.min_le_left _ _) (by decide))

/-- On the grid of its exponent a quotient has all digits of a significand. -/
theorem le_roundHalfEven_scale (hnum : 0 < r.num) (hden : 0 < r.den) :
    2 ^ 52 ≤ (r.scale 2 (-(r.exponent - 52))).roundHalfEven := by
  have hvalue : ((2 ^ 52 : ℕ) : ℚ) ≤ (r.scale 2 (-(r.exponent - 52))).value := by
    rw [Ratio.value_scale _ Nat.two_pos]
    calc ((2 ^ 52 : ℕ) : ℚ) = (2 : ℚ) ^ (r.exponent + -(r.exponent - 52)) := by
          rw [show r.exponent + -(r.exponent - 52) = 52 by ring]
          norm_num
      _ = (2 : ℚ) ^ r.exponent * (2 : ℚ) ^ (-(r.exponent - 52)) := zpow_add₀ (by norm_num) _ _
      _ ≤ r.value * (2 : ℕ) ^ (-(r.exponent - 52)) :=
        mul_le_mul_of_nonneg_right (r.exponent_bounds hnum hden).1 (zpow_pos (by norm_num) _).le
  calc 2 ^ 52 ≤ (r.scale 2 (-(r.exponent - 52))).floor := by
        rw [Ratio.floor_eq]
        exact Nat.le_floor hvalue
    _ ≤ _ := Ratio.floor_le_roundHalfEven _

/-- Rounding to double precision keeps the order of quotients. -/
theorem magnitude_ofRatio_mono (negative negative' : Bool) (hr : 0 < r.den) (hs : 0 < s.den)
    (h : r.value ≤ s.value) :
    (ofRatio negative r).magnitude ≤ (ofRatio negative' s).magnitude := by
  by_cases hnum : r.num = 0
  · rw [ofRatio, if_pos hnum, zero, magnitude_ofMagnitude negative (by decide)]
    exact Nat.zero_le _
  · have hpos := Nat.pos_of_ne_zero hnum
    have hvalue : 0 < r.value := by
      refine lt_of_le_of_ne (by rw [Ratio.value]; positivity) (Ne.symm ?_)
      exact (Ratio.value_eq_zero_iff hr).not.2 hnum
    have hnum' : s.num ≠ 0 := (Ratio.value_eq_zero_iff hs).not.1 (lt_of_lt_of_le hvalue h).ne'
    have hpos' := Nat.pos_of_ne_zero hnum'
    have hexponent : r.exponent ≤ s.exponent := by
      rw [Ratio.exponent_eq hpos hr, Ratio.exponent_eq hpos' hs]
      exact Int.log_mono_right hvalue h
    rw [magnitude_ofRatio negative hnum, magnitude_ofRatio negative' hnum']
    refine min_le_min_left _ ?_
    rcases (max_le_max_left (-1074) (Int.sub_le_sub_right hexponent 52)).lt_or_eq with hlt | heq
    · -- On a coarser grid the greater quotient has all digits of a significand.
      have hgrid : max (-1074) (s.exponent - 52) = s.exponent - 52 := by omega
      have hround := roundHalfEven_scale_le hpos hr (le_max_right (-1074) (r.exponent - 52))
      have hround' := le_roundHalfEven_scale hpos' hs
      rw [hgrid] at hlt ⊢
      rw [exponentUnit]
      omega
    · rw [← heq]
      refine Nat.add_le_add_left (Ratio.roundHalfEven_mono (Ratio.den_scale_pos hr Nat.two_pos _)
        (Ratio.den_scale_pos hs Nat.two_pos _) ?_) _
      rw [Ratio.value_scale r Nat.two_pos, Ratio.value_scale s Nat.two_pos]
      exact mul_le_mul_of_nonneg_right h (by positivity)

end Rounding

/-! ## Conversion -/

variable {m n : Int}

theorem magnitude_ofInt_mono (h : m.natAbs ≤ n.natAbs) :
    (ofInt m).magnitude ≤ (ofInt n).magnitude := by
  refine magnitude_ofRatio_mono _ _ Nat.one_pos Nat.one_pos ?_
  rw [Ratio.value_ofNat, Ratio.value_ofNat]
  exact_mod_cast h

theorem isNegative_ofInt (n : Int) : (ofInt n).isNegative = decide (n < 0) :=
  isNegative_ofRatio _ _

/-- Conversion keeps the order of integers, although it may make different ones the same. -/
theorem key_ofInt_mono (h : m ≤ n) : (ofInt m).key ≤ (ofInt n).key := by
  simp only [key, isNegative_ofInt, decide_eq_true_eq]
  by_cases hm : m < 0 <;> by_cases hn : n < 0
  · have hmagnitude := magnitude_ofInt_mono (show n.natAbs ≤ m.natAbs by omega)
    rw [if_pos hm, if_pos hn]
    omega
  · rw [if_pos hm, if_neg hn]
    omega
  · omega
  · have hmagnitude := magnitude_ofInt_mono (show m.natAbs ≤ n.natAbs by omega)
    rw [if_neg hm, if_neg hn]
    omega

/-- Only zero is converted to a zero. -/
theorem isZero_ofInt_iff : (ofInt n).isZero = true ↔ n = 0 := by
  rw [isZero, decide_eq_true_iff]
  constructor
  · intro h
    by_contra hn
    have hone := magnitude_ofInt_mono (show (1 : Int).natAbs ≤ n.natAbs by omega)
    rw [h] at hone
    exact absurd hone (by decide)
  · rintro rfl
    decide

/-! ## Integers without rounding -/

theorem value_ratio_eq_abs (x : Binary64) : x.ratio.value = |x.toRat| := by
  have hvalue := abs_of_nonneg x.value_ratio_nonneg
  unfold toRat
  split
  · rw [abs_neg, hvalue]
  · exact hvalue.symm

theorem isIntegral_ofInt (h : n.natAbs ≤ 2 ^ 53) : (ofInt n).isIntegral = true := by
  have hvalue : (ofInt n).ratio.value = n.natAbs := by
    rw [value_ratio_eq_abs, toRat_ofInt h, Nat.cast_natAbs, Int.cast_abs]
  exact isIntegral_of_value_eq hvalue

/-- Integers no larger than `2 ^ 53` are left as they are when they are rounded up. -/
theorem ceil_ofInt (h : n.natAbs ≤ 2 ^ 53) : (ofInt n).ceil = ofInt n :=
  ceil_of_isIntegral (isFinite_ofInt (Nat.lt_of_le_of_lt h (by decide))) (isIntegral_ofInt h)

/-! ## Integers that are rounded -/

/-- From `2 ^ 53` on there are no fractions in double precision. -/
theorem isIntegral_of_le_value {x : Binary64} (h : (2 : ℚ) ^ 53 ≤ x.ratio.value) :
    x.isIntegral = true := by
  have hsignificand : (x.significand : ℚ) ≤ 2 ^ 53 := by
    rcases x.significand_cases with ⟨-, hlt⟩ | ⟨-, -, hlt⟩
    · exact_mod_cast (Nat.lt_trans hlt (by norm_num)).le
    · exact_mod_cast hlt.le
  rw [value_ratio] at h
  have hexponent : 0 ≤ x.exponent := by
    by_contra hneg
    have hpow : (2 : ℚ) ^ x.exponent < 1 := zpow_lt_one_of_neg₀ (by norm_num) (by omega)
    have hpos : (0 : ℚ) < 2 ^ x.exponent := zpow_pos (by norm_num) _
    nlinarith
  obtain ⟨k, hk⟩ := Int.eq_ofNat_of_zero_le hexponent
  refine isIntegral_of_value_eq (n := x.significand * 2 ^ k) ?_
  rw [value_ratio, hk, zpow_natCast]
  push_cast
  rfl

theorem isIntegral_of_magnitude_eq_zero {x : Binary64} (h : x.magnitude = 0) :
    x.isIntegral = true :=
  isIntegral_of_value_eq (n := 0) ((value_ratio_eq_zero_iff.2 h).trans Nat.cast_zero.symm)

/-- Rounding gives no fraction to an integer. -/
theorem isIntegral_ofRatio (negative : Bool) {r : Ratio} (hden : 0 < r.den) {n : ℕ}
    (h : r.value = n) : (ofRatio negative r).isIntegral = true := by
  rcases Nat.eq_zero_or_pos n with rfl | hpos
  · have hzero : (ofRatio negative r).magnitude = 0 := by
      rw [ofRatio, if_pos ((Ratio.value_eq_zero_iff hden).1 (h.trans Nat.cast_zero)), zero]
      exact magnitude_ofMagnitude negative (by decide)
    exact isIntegral_of_magnitude_eq_zero hzero
  · rcases Nat.lt_or_ge (2 ^ 53) n with hlarge | hsmall
    · obtain ⟨y, hfinite, hnegative, hvalue⟩ :=
        exists_value_ratio_eq negative (m := 2 ^ 53) (by norm_num) (Nat.le_refl _)
      have hle : y.ratio.value ≤ r.value := by
        rw [hvalue, h]
        exact_mod_cast hlarge.le
      have hmagnitude := magnitude_ofRatio_mono y.isNegative negative y.den_ratio_pos hden hle
      rw [ofRatio_ratio hfinite, ← Nat.not_lt, magnitude_lt_magnitude_iff, not_lt, hvalue]
        at hmagnitude
      exact isIntegral_of_le_value (by exact_mod_cast hmagnitude)
    · obtain ⟨y, hfinite, hnegative, hvalue⟩ := exists_value_ratio_eq negative hpos hsmall
      rw [← hnegative, ofRatio_congr _ hden y.den_ratio_pos (h.trans hvalue.symm),
        ofRatio_ratio hfinite]
      exact isIntegral_of_value_eq hvalue

end Binary64

end JsonRules
