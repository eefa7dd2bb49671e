import JsonRules.Proofs.Binary64.Integers
import JsonRules.Value.Number

/-!
# Numbers that are compared

Two numbers are compared exactly if both are integers and in double precision otherwise. Conversion
keeps the order of integers but not all differences, so the order is that of double precision, in
which integers that are the same there are told apart by their values (`compare_eq_some_lt_iff`).
To be less is therefore passed on from number to number (`compare_trans`), although to be equal is
not: different integers may equal one float, and this is all that can go wrong (`equals_trans_iff`).
-/

namespace JsonRules

namespace Number

variable {a b c : Number}

theorem compare_swap (a b : Number) : b.compare a = (a.compare b).map Ordering.swap := by
  cases a with
  | int m =>
    cases b with
    | int n => exact congrArg some Std.OrientedOrd.eq_swap
    | float y => exact Binary64.compare_swap _ _
  | float x => cases b <;> exact Binary64.compare_swap _ _

theorem equals_iff : a.equals b = true ↔ a.compare b = some .eq := beq_iff_eq

theorem equals_comm (a b : Number) : a.equals b = b.equals a := by
  rw [Bool.eq_iff_iff, equals_iff, equals_iff, compare_swap a b, map_swap_eq_some_eq_iff]

theorem equals_int_iff {m n : Int64} : (int m).equals (int n) = true ↔ m = n := by
  rw [equals_iff, Number.compare, Option.some_inj, compare_eq_iff_eq, Int64.toInt_inj]

theorem isFinite_ofInt_toInt (n : Int64) : (Binary64.ofInt n.toInt).isFinite = true := by
  have hlow := n.le_toInt
  have hhigh := n.toInt_lt
  refine Binary64.isFinite_ofInt ?_
  rw [UInt64.size]
  omega

theorem isNaN_ofInt_toInt (n : Int64) : (Binary64.ofInt n.toInt).isNaN = false :=
  Binary64.isNaN_of_isFinite (isFinite_ofInt_toInt n)

/-- Numbers that are not both integers are compared in double precision. -/
theorem compare_eq_compare_toBinary64 (h : ¬ ∃ m n, a = int m ∧ b = int n) :
    a.compare b = a.toBinary64.compare b.toBinary64 := by
  cases a with
  | int m =>
    cases b with
    | int n => exact absurd ⟨m, n, rfl, rfl⟩ h
    | float y => rfl
  | float x => cases b <;> rfl

/-- Numbers are equal if they are equal in double precision and not two different integers. -/
theorem equals_iff_toBinary64 :
    a.equals b = true ↔
      a.toBinary64.equals b.toBinary64 = true ∧ ∀ m n, a = int m → b = int n → m = n := by
  by_cases h : ∃ m n, a = int m ∧ b = int n
  · obtain ⟨m, n, rfl, rfl⟩ := h
    rw [equals_int_iff]
    constructor
    · rintro rfl
      refine ⟨Binary64.equals_iff.2 ⟨isNaN_ofInt_toInt m, isNaN_ofInt_toInt m, rfl⟩, ?_⟩
      rintro _ _ ⟨⟩ ⟨⟩
      rfl
    · rintro ⟨-, hint⟩
      exact hint m n rfl rfl
  · rw [equals_iff, compare_eq_compare_toBinary64 h, Binary64.compare_eq_some_eq_iff]
    exact (and_iff_left fun m n hm hn => absurd ⟨m, n, hm, hn⟩ h).symm

/-- Two numbers that are equal to a third are equal, unless they are different integers. -/
theorem equals_trans_iff (hab : a.equals b = true) (hbc : b.equals c = true) :
    a.equals c = true ↔ ∀ m n, a = int m → c = int n → m = n := by
  have hdouble : a.toBinary64.equals c.toBinary64 = true :=
    Binary64.equals_trans (equals_iff_toBinary64.1 hab).1 (equals_iff_toBinary64.1 hbc).1
  rw [equals_iff_toBinary64, and_iff_right hdouble]

/-- Integers no larger than `2 ^ 53` that are equal to one number are the same. -/
theorem eq_of_equals_of_equals {m n : Int64} (hm : m.toInt.natAbs ≤ 2 ^ 53)
    (hn : n.toInt.natAbs ≤ 2 ^ 53) (hmb : (int m).equals b = true) (hbn : b.equals (int n) = true) :
    m = n := by
  have hdouble : (Binary64.ofInt m.toInt).equals (Binary64.ofInt n.toInt) = true :=
    Binary64.equals_trans (equals_iff_toBinary64.1 hmb).1 (equals_iff_toBinary64.1 hbn).1
  rw [← Binary64.compare_eq_some_eq_iff, Binary64.compare_ofInt hm hn, Option.some_inj,
    compare_eq_iff_eq] at hdouble
  exact Int64.toInt_inj.1 hdouble

/-! ## Order -/

/-- Whether a number is NaN. -/
def isNaN (a : Number) : Bool := a.toBinary64.isNaN

theorem exists_compare_iff :
    (∃ o, a.compare b = some o) ↔ a.isNaN = false ∧ b.isNaN = false := by
  by_cases h : ∃ m n, a = int m ∧ b = int n
  · obtain ⟨m, n, rfl, rfl⟩ := h
    exact iff_of_true ⟨_, rfl⟩ ⟨isNaN_ofInt_toInt m, isNaN_ofInt_toInt n⟩
  · rw [compare_eq_compare_toBinary64 h, Binary64.compare, isNaN, isNaN, ← Bool.or_eq_false_iff]
    by_cases hnan : (a.toBinary64.isNaN || b.toBinary64.isNaN) = true
    · simp [hnan]
    · simp [hnan]

/-- A number is less than another if it is in double precision, or if both are integers that are the
same there and it is less as an integer. -/
theorem compare_eq_some_lt_iff :
    a.compare b = some .lt ↔ a.isNaN = false ∧ b.isNaN = false ∧
      (a.toBinary64.key < b.toBinary64.key ∨ a.toBinary64.key = b.toBinary64.key ∧
        ∃ m n, a = int m ∧ b = int n ∧ m.toInt < n.toInt) := by
  by_cases h : ∃ m n, a = int m ∧ b = int n
  · obtain ⟨m, n, rfl, rfl⟩ := h
    rw [Number.compare, Option.some_inj, compare_lt_iff_lt]
    constructor
    · intro hlt
      refine ⟨isNaN_ofInt_toInt m, isNaN_ofInt_toInt n, ?_⟩
      rcases (Binary64.key_ofInt_mono hlt.le).lt_or_eq with hkey | hkey
      · exact .inl hkey
      · exact .inr ⟨hkey, m, n, rfl, rfl, hlt⟩
    · rintro ⟨-, -, hkey | ⟨-, m', n', hm, hn, hlt⟩⟩
      · exact lt_of_not_ge fun hle => absurd (Binary64.key_ofInt_mono hle) (not_le_of_gt hkey)
      · rwa [int.inj hm, int.inj hn]
  · rw [compare_eq_compare_toBinary64 h, Binary64.compare_eq_some_lt_iff]
    refine and_congr_right fun _ => and_congr_right fun _ => (or_iff_left ?_).symm
    rintro ⟨-, m, n, hm, hn, -⟩
    exact h ⟨m, n, hm, hn⟩

theorem compare_lt_trans (hab : a.compare b = some .lt) (hbc : b.compare c = some .lt) :
    a.compare c = some .lt := by
  obtain ⟨ha, -, hab⟩ := compare_eq_some_lt_iff.1 hab
  obtain ⟨-, hc, hbc⟩ := compare_eq_some_lt_iff.1 hbc
  refine compare_eq_some_lt_iff.2 ⟨ha, hc, ?_⟩
  rcases hab with hab | ⟨hab, m, n, rfl, rfl, hmn⟩
  · rcases hbc with hbc | ⟨hbc, -⟩
    · exact .inl (hab.trans hbc)
    · exact .inl (hbc ▸ hab)
  · rcases hbc with hbc | ⟨hbc, n', k, hn, rfl, hnk⟩
    · exact .inl (hab ▸ hbc)
    · obtain rfl := int.inj hn
      exact .inr ⟨hab.trans hbc, m, k, rfl, rfl, hmn.trans hnk⟩

/-- To be less is passed on from number to number, and so is to be greater. -/
theorem compare_trans {o : Ordering} (ho : o ≠ .eq) (hab : a.compare b = some o)
    (hbc : b.compare c = some o) : a.compare c = some o := by
  cases o with
  | lt => exact compare_lt_trans hab hbc
  | eq => exact absurd rfl ho
  | gt =>
    have hcb : c.compare b = some .lt := by rw [compare_swap b c, hbc]; rfl
    have hba : b.compare a = some .lt := by rw [compare_swap a b, hab]; rfl
    rw [compare_swap c a, compare_lt_trans hcb hba]
    rfl

theorem compare_self_ne {o : Ordering} (ho : o ≠ .eq) (a : Number) : a.compare a ≠ some o := by
  intro h
  have hswap := compare_swap a a
  rw [h] at hswap
  cases o with
  | eq => exact ho rfl
  | _ => exact absurd hswap (by decide)

end Number

end JsonRules
