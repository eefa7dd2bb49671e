import JsonRules.Proofs.Binary64.Integers
import JsonRules.Proofs.Decimal.Style

/-!
# Decimals with and without a fraction

A number without a fraction is written exactly, with a zero behind its point, and reads back
(`exists_numeral_writeIntegral`). A decimal that reads back as a number with a fraction is no integer
(`isIntegral_toBinary64`), so such a number is written with a point in every style, whether or not
the style keeps the point of an integer (`Style.write_eq_of_not_isIntegral`).
-/

namespace JsonRules

namespace Decimal

variable {x : Binary64}

/-! ## Numbers without a fraction -/

theorem exists_numeral_writeIntegral (hfinite : x.isFinite = true) (h : x.isIntegral = true) :
    ∃ n : Numeral, n.Proper ∧ n.fraction?.isSome ∧
      writeIntegral x = (if x.isNegative then '-' :: n.text else n.text) ∧
      n.decimal.toBinary64 x.isNegative = x := by
  have hvalue : (Numeral.decimal ⟨Text.writeNat x.integralPart, some ['0'], none⟩).value =
      x.ratio.value := by
    rw [value_numeral]
    change digitsAt (Text.writeNat x.integralPart ++ List.replicate 1 '0')
      ((Text.writeNat x.integralPart).length + 0) = _
    rw [digitsAt_append_zeros, digitsAt, add_zero, sub_self, zpow_zero, mul_one,
      Text.digitsValue_writeNat, Binary64.value_ratio_of_isIntegral h]
  exact ⟨_, (Numeral.proper_writeNat _).point_zero, rfl, rfl, toBinary64_of_value_eq hfinite hvalue⟩

/-! ## Numbers with a fraction -/

/-- A decimal that is an integer reads as a number without a fraction. -/
theorem isIntegral_toBinary64 (negative : Bool) {d : Decimal} {n : ℕ} (h : d.value = n)
    (hfinite : (d.toBinary64 negative).isFinite = true) :
    (d.toBinary64 negative).isIntegral = true := by
  have hzero : (Binary64.zero negative).isIntegral = true :=
    Binary64.isIntegral_of_magnitude_eq_zero (Binary64.magnitude_ofMagnitude negative (by decide))
  have hinfinity : (Binary64.infinity negative).isFinite = false := by cases negative <;> decide
  unfold toBinary64 at hfinite ⊢
  split
  · exact hzero
  · rename_i hcoefficient
    rw [if_neg hcoefficient] at hfinite
    split
    · rename_i hlarge
      rw [if_pos hlarge, hinfinity] at hfinite
      exact absurd hfinite Bool.false_ne_true
    · split
      · exact hzero
      · exact Binary64.isIntegral_ofRatio negative d.den_ratio_pos ((value_ratio d).trans h)

/-- Some digits of a decimal stand behind its point if it is no integer. -/
theorem point_lt_length {d : Decimal} (h : ∀ n : ℕ, d.value ≠ n) :
    d.point < d.significantDigits.length := by
  by_contra hle
  obtain ⟨k, hk⟩ := Int.eq_ofNat_of_zero_le (Int.sub_nonneg.2 (Int.not_lt.1 hle))
  refine h (Text.digitsValue d.significantDigits * 10 ^ k) ?_
  rw [value_eq_digitsAt, digitsAt, hk, zpow_natCast]
  push_cast
  rfl

/-- Whether the point of an integer is kept does not matter to a number that is none. -/
theorem positionalText_congr {digits : List Char} {point : Int} (h : point < digits.length)
    (keepsPoint keepsPoint' : Bool) :
    positionalText keepsPoint digits point = positionalText keepsPoint' digits point := by
  unfold positionalText
  by_cases hpoint : point ≤ 0
  · rw [if_pos hpoint, if_pos hpoint]
  · have hfraction : (digits.drop point.toNat).isEmpty = false := by
      rw [List.isEmpty_eq_false_iff, Ne, List.drop_eq_nil_iff]
      omega
    simp only [hfraction, Bool.false_eq_true, if_false]

theorem Style.write_eq_of_not_isIntegral (style : Style) (hfinite : x.isFinite = true)
    (h : x.isIntegral = false) :
    style.write x = Style.write { style with keepsPoint := true } x := by
  have hmagnitude : x.magnitude ≠ 0 := by
    intro hzero
    rw [Binary64.isIntegral_of_magnitude_eq_zero hzero] at h
    exact absurd h.symm Bool.false_ne_true
  have hsignificand : x.significand ≠ 0 := Binary64.significand_eq_zero_iff.not.2 hmagnitude
  have hzero : ¬ x.isZero = true := fun h => hmagnitude (of_decide_eq_true h)
  have hread := toBinary64_shortest hfinite hsignificand style.tie
  have hpoint : (shortest style.tie x).point < (shortest style.tie x).significantDigits.length := by
    refine point_lt_length fun n hn => ?_
    have hintegral := isIntegral_toBinary64 x.isNegative hn (hread.symm ▸ hfinite)
    rw [hread, h] at hintegral
    exact absurd hintegral Bool.false_ne_true
  simp only [Style.write, if_neg hzero, positionalText_congr hpoint style.keepsPoint true]

end Decimal

end JsonRules
