import JsonRules.Proofs.Binary64.Rounding

/-!
# Order of double-precision numbers

Comparison is antisymmetric (`compare_swap`), and numeric equality is what it says of two numbers in
the same place (`compare_eq_some_eq_iff`). It is an equivalence on everything but NaN.

The patterns are ordered as the rational numbers that they stand for (`key_lt_key_iff`). Integers up
to `2 ^ 53` are numbers of double precision, so that they are compared there as they are
(`compare_ofInt`).
-/

namespace JsonRules

theorem map_swap_eq_some_eq_iff {o : Option Ordering} :
    o.map Ordering.swap = some .eq ↔ o = some .eq := by
  cases o with
  | none => simp
  | some o => cases o <;> simp

namespace Binary64

variable {x y z : Binary64}

/-! ## Comparison -/

theorem compare_swap (x y : Binary64) : y.compare x = (x.compare y).map Ordering.swap := by
  unfold Binary64.compare
  rw [Bool.or_comm y.isNaN]
  by_cases h : (x.isNaN || y.isNaN) = true
  · rw [if_pos h, if_pos h, Option.map_none]
  · rw [if_neg h, if_neg h, Option.map_some, ← Std.OrientedOrd.eq_swap]

theorem equals_iff : x.equals y = true ↔ x.isNaN = false ∧ y.isNaN = false ∧ x.key = y.key := by
  simp [equals, and_assoc]

theorem compare_eq_some_eq_iff : x.compare y = some .eq ↔ x.equals y = true := by
  unfold Binary64.compare
  rw [equals_iff]
  by_cases hx : x.isNaN = true
  · simp [hx]
  · by_cases hy : y.isNaN = true
    · simp [hy]
    · simp [hx, hy]

theorem compare_eq_some_lt_iff :
    x.compare y = some .lt ↔ x.isNaN = false ∧ y.isNaN = false ∧ x.key < y.key := by
  unfold Binary64.compare
  by_cases hx : x.isNaN = true
  · simp [hx]
  · by_cases hy : y.isNaN = true
    · simp [hy]
    · simp [hx, hy, compare_lt_iff_lt]

theorem isFinite_eq_of_equals (h : x.equals y = true) : x.isFinite = y.isFinite := by
  have hmagnitude : ∀ z : Binary64, z.key.natAbs = z.magnitude := by
    intro z
    unfold key
    split <;> omega
  obtain ⟨-, -, hkey⟩ := equals_iff.1 h
  rw [isFinite, isFinite, ← hmagnitude x, ← hmagnitude y, hkey]

theorem equals_trans (hxy : x.equals y = true) (hyz : y.equals z = true) : x.equals z = true := by
  obtain ⟨hx, -, hkey⟩ := equals_iff.1 hxy
  obtain ⟨-, hz, hkey'⟩ := equals_iff.1 hyz
  exact equals_iff.2 ⟨hx, hz, hkey.trans hkey'⟩

/-! ## Order of values -/

theorem value_ratio_lt_of_magnitude_lt (h : x.magnitude < y.magnitude) :
    x.ratio.value < y.ratio.value := by
  have hx := x.magnitude_eq
  have hy := y.magnitude_eq
  rw [exponentUnit] at hx hy
  have hpos : ∀ e : Int, (0 : ℚ) < 2 ^ e := fun e => zpow_pos (by norm_num) e
  rw [value_ratio, value_ratio]
  rcases lt_trichotomy x.exponent y.exponent with hlt | heq | hgt
  · -- The number with the greater exponent has all its digits.
    have hsx : x.significand < 2 ^ 53 := by
      rcases x.significand_cases with ⟨-, hs⟩ | ⟨-, -, hs⟩ <;> omega
    have hsy : 2 ^ 52 ≤ y.significand := by
      rcases x.significand_cases with ⟨hex, -⟩ | ⟨hex, -, -⟩ <;>
        rcases y.significand_cases with ⟨hey, -⟩ | ⟨-, hs, -⟩ <;> omega
    calc (x.significand : ℚ) * 2 ^ x.exponent
        < 2 ^ 53 * 2 ^ x.exponent := mul_lt_mul_of_pos_right (by exact_mod_cast hsx) (hpos _)
      _ = 2 ^ 52 * 2 ^ (x.exponent + 1) := by rw [zpow_add_one₀ (by norm_num)]; ring
      _ ≤ 2 ^ 52 * 2 ^ y.exponent :=
        mul_le_mul_of_nonneg_left (zpow_le_zpow_right₀ (by norm_num) hlt) (by norm_num)
      _ ≤ y.significand * 2 ^ y.exponent :=
        mul_le_mul_of_nonneg_right (by exact_mod_cast hsy) (hpos _).le
  · have hs : x.significand < y.significand := by omega
    rw [heq]
    exact mul_lt_mul_of_pos_right (by exact_mod_cast hs) (hpos _)
  · rcases x.significand_cases with ⟨hex, hsx⟩ | ⟨hex, hlow, -⟩ <;>
      rcases y.significand_cases with ⟨hey, hsy⟩ | ⟨hey, -, hsy⟩ <;> omega

/-- Magnitudes are ordered as the absolute values that they stand for. -/
theorem magnitude_lt_magnitude_iff : x.magnitude < y.magnitude ↔ x.ratio.value < y.ratio.value := by
  refine ⟨value_ratio_lt_of_magnitude_lt, fun h => ?_⟩
  by_contra hle
  rcases Nat.lt_or_eq_of_le (Nat.le_of_not_lt hle) with hlt | heq
  · exact lt_asymm h (value_ratio_lt_of_magnitude_lt hlt)
  · have hsame : y.ratio = x.ratio := by
      simp only [ratio, significand, exponent, heq]
    exact lt_irrefl _ (hsame ▸ h)

/-- The rational number that a finite number is. -/
def toRat (x : Binary64) : ℚ := if x.isNegative then -x.ratio.value else x.ratio.value

theorem value_ratio_nonneg (x : Binary64) : 0 ≤ x.ratio.value := by
  rw [value_ratio]
  positivity

theorem value_ratio_eq_zero_iff : x.ratio.value = 0 ↔ x.magnitude = 0 := by
  rw [value_ratio, mul_eq_zero, Nat.cast_eq_zero, or_iff_left (zpow_ne_zero _ (by norm_num)),
    significand_eq_zero_iff]

/-- Keys are ordered as the rational numbers that they stand for. -/
theorem key_lt_key_iff : x.key < y.key ↔ x.toRat < y.toRat := by
  have hx := x.value_ratio_nonneg
  have hy := y.value_ratio_nonneg
  unfold key toRat
  by_cases hnx : x.isNegative = true <;> by_cases hny : y.isNegative = true
  · rw [if_pos hnx, if_pos hnx, if_pos hny, if_pos hny, neg_lt_neg_iff, neg_lt_neg_iff, Int.ofNat_lt,
      magnitude_lt_magnitude_iff]
  · rw [if_pos hnx, if_pos hnx, if_neg hny, if_neg hny]
    -- A negative number is below one that is not, unless both are zero.
    have hkey : -(x.magnitude : Int) < y.magnitude ↔ ¬ (x.magnitude = 0 ∧ y.magnitude = 0) := by
      omega
    rw [hkey, ← value_ratio_eq_zero_iff, ← value_ratio_eq_zero_iff]
    constructor
    · intro h
      by_contra hle
      exact h ⟨by linarith, by linarith⟩
    · rintro h ⟨hzx, hzy⟩
      rw [hzx, hzy] at h
      exact lt_irrefl _ (neg_zero (G := ℚ) ▸ h)
  · rw [if_neg hnx, if_neg hnx, if_pos hny, if_pos hny]
    exact iff_of_false (by omega) (by linarith)
  · rw [if_neg hnx, if_neg hnx, if_neg hny, if_neg hny, Int.ofNat_lt, magnitude_lt_magnitude_iff]

theorem compare_eq_compare_toRat (hx : x.isNaN = false) (hy : y.isNaN = false) :
    x.compare y = some (Ord.compare x.toRat y.toRat) := by
  unfold Binary64.compare
  rw [hx, hy, Bool.or_false, if_neg Bool.false_ne_true]
  exact congrArg some (compare_congr key_lt_key_iff key_lt_key_iff)

/-! ## Integers -/

/-- The value of a normal number by the parts of its magnitude. -/
theorem value_ratio_ofMagnitude (negative : Bool) {q n : Nat} (hq : q < 2046) (hlow : 2 ^ 52 ≤ n)
    (hhigh : n < 2 ^ 53) :
    (ofMagnitude negative (q * exponentUnit + n)).ratio.value = n * (2 : ℚ) ^ (q - 1074 : Int) := by
  have hsign : q * exponentUnit + n < signUnit := by
    rw [exponentUnit, signUnit]
    omega
  rw [value_ratio, exponent, significand, magnitude_ofMagnitude negative hsign, exponentUnit]
  have hnormal : ¬ q * 0x10000000000000 + n < 0x10000000000000 := by omega
  have hn : 0x10000000000000 + (q * 0x10000000000000 + n) % 0x10000000000000 = n := by omega
  have he : (((q * 0x10000000000000 + n) / 0x10000000000000 : Nat) : Int) - 1075 = q - 1074 := by
    omega
  rw [if_neg hnormal, if_neg hnormal, hn, he]

/-- There is a number of double precision for each natural number up to `2 ^ 53`. -/
theorem exists_value_ratio_eq (negative : Bool) {m : Nat} (hpos : 0 < m) (h : m ≤ 2 ^ 53) :
    ∃ x : Binary64, x.isFinite = true ∧ x.isNegative = negative ∧ x.ratio.value = m := by
  obtain ⟨q, n, hq, hlow, hhigh, hvalue⟩ : ∃ q n : Nat, q < 2046 ∧ 2 ^ 52 ≤ n ∧ n < 2 ^ 53 ∧
      (n : ℚ) * (2 : ℚ) ^ (q - 1074 : Int) = m := by
    rcases Nat.lt_or_eq_of_le h with hlt | rfl
    · have hlog : m.log2 < 53 := (Nat.log2_lt hpos.ne').2 hlt
      have hself : 2 ^ m.log2 ≤ m := Nat.log2_self_le hpos.ne'
      have hnext : m < 2 ^ (m.log2 + 1) := Nat.lt_log2_self
      refine ⟨1074 - (52 - m.log2), m * 2 ^ (52 - m.log2), by omega, ?_, ?_, ?_⟩
      · calc 2 ^ 52 = 2 ^ m.log2 * 2 ^ (52 - m.log2) := by rw [← Nat.pow_add]; congr 1; omega
          _ ≤ _ := Nat.mul_le_mul_right _ hself
      · calc m * 2 ^ (52 - m.log2) < 2 ^ (m.log2 + 1) * 2 ^ (52 - m.log2) :=
              Nat.mul_lt_mul_of_pos_right hnext (Nat.two_pow_pos _)
          _ = 2 ^ 53 := by rw [← Nat.pow_add]; congr 1; omega
      · have he : ((1074 - (52 - m.log2) : Nat) : Int) - 1074 = -((52 - m.log2 : Nat) : Int) := by
          omega
        rw [he, zpow_neg, zpow_natCast]
        push_cast
        exact mul_inv_cancel_right₀ (by positivity) _
    · exact ⟨1075, 2 ^ 52, by norm_num, by norm_num, by norm_num, by norm_num⟩
  have hfinite : q * exponentUnit + n < infinityMagnitude := by
    rw [exponentUnit, infinityMagnitude]
    omega
  exact ⟨ofMagnitude negative (q * exponentUnit + n), isFinite_ofMagnitude negative hfinite,
    isNegative_ofMagnitude negative (Nat.lt_trans hfinite (by decide)),
    (value_ratio_ofMagnitude negative hq hlow hhigh).trans hvalue⟩

/-- Integers no larger than `2 ^ 53` are not rounded. -/
theorem toRat_ofInt {n : Int} (h : n.natAbs ≤ 2 ^ 53) : (ofInt n).toRat = n := by
  rcases Nat.eq_zero_or_pos n.natAbs with hzero | hpos
  · rw [Int.natAbs_eq_zero.1 hzero]
    have hmagnitude : (ofInt 0).ratio.value = 0 := value_ratio_eq_zero_iff.2 (by decide)
    rw [toRat, hmagnitude, neg_zero, ite_self, Int.cast_zero]
  · obtain ⟨x, hfinite, hnegative, hvalue⟩ := exists_value_ratio_eq (decide (n < 0)) hpos h
    have hx : ofInt n = x := by
      rw [ofInt, ← hnegative, ofRatio_congr _ Nat.one_pos x.den_ratio_pos
        ((Ratio.value_ofNat _).trans hvalue.symm), ofRatio_ratio hfinite]
    rw [hx, toRat, hnegative, hvalue, Nat.cast_natAbs]
    by_cases hneg : n < 0
    · rw [if_pos (decide_eq_true hneg), abs_of_neg hneg, Int.cast_neg, neg_neg]
    · rw [if_neg (by simpa using hneg), abs_of_nonneg (Int.not_lt.1 hneg)]

theorem isNaN_ofInt {n : Int} (h : n.natAbs < UInt64.size) : (ofInt n).isNaN = false :=
  isNaN_of_isFinite (isFinite_ofInt h)

/-- Integers no larger than `2 ^ 53` are compared in double precision as they are. -/
theorem compare_ofInt {m n : Int} (hm : m.natAbs ≤ 2 ^ 53) (hn : n.natAbs ≤ 2 ^ 53) :
    (ofInt m).compare (ofInt n) = some (Ord.compare m n) := by
  have hsize : 2 ^ 53 < UInt64.size := by decide
  rw [compare_eq_compare_toRat (isNaN_ofInt (by omega)) (isNaN_ofInt (by omega)), toRat_ofInt hm,
    toRat_ofInt hn]
  exact congrArg some (compare_congr Int.cast_lt Int.cast_lt)

end Binary64

end JsonRules
