import JsonRules.Proofs.Operator.Arithmetic
import JsonRules.Proofs.Rule.Application

/-!
# Division of integers

Whether an integer can be divided by is looked up in double precision, which is safe, since only
zero is converted to zero. The quotient of two integers is an integer unless it is the one that is
out of range, that of the least integer by minus one (`fitsInt64_tdiv_iff`). A remainder is always
in range (`fitsInt64_tmod`), but where the quotient is not, the remainder is not an integer either.

Main statement: what rules with the two operators yield (`Engine.yields_of_division`).
-/

namespace JsonRules

/-- What is left of an integer after division by another: the quotient is truncated toward zero, so
that the remainder is less than the divisor in absolute value and has the sign of the dividend. -/
structure IsRemainder (m n r : Int) : Prop where
  eq : r = m - n * m.tdiv n
  natAbs_lt : r.natAbs < n.natAbs
  sign : r = 0 ∨ r.sign = m.sign

theorem isRemainder_tmod {m n : Int} (hn : n ≠ 0) : IsRemainder m n (m.tmod n) where
  eq := Int.tmod_def m n
  natAbs_lt := by
    rw [Int.natAbs_tmod]
    exact Nat.mod_lt _ (Int.natAbs_pos.2 hn)
  sign := by
    by_cases h : n ∣ m
    · exact .inl (Int.tmod_eq_zero_of_dvd h)
    · exact .inr (by rw [Int.sign_tmod, if_neg h])

/-! ## Ranges -/

section Ranges

variable (m : Int64) {n : Int64}

theorem toInt_eq_zero_iff : n.toInt = 0 ↔ n = 0 := by
  rw [← Int64.toInt_inj, Int64.toInt_zero]

/-- Only the quotient of the least integer by minus one is out of range. -/
theorem fitsInt64_tdiv_iff (hn : n ≠ 0) :
    FitsInt64 (m.toInt.tdiv n.toInt) ↔ ¬ (m = Int64.minValue ∧ n = -1) := by
  constructor
  · rintro hfits ⟨rfl, rfl⟩
    exact absurd hfits (by decide)
  · intro hleast
    obtain ⟨hlow, hhigh⟩ := fitsInt64_toInt m
    by_cases hone : n = 1
    · rw [hone, Int64.toInt_one, Int.tdiv_one]
      exact fitsInt64_toInt m
    · by_cases hneg : n = -1
      · -- The quotient is the opposite number, and the least integer is the only one without.
        have hm : m.toInt ≠ -2 ^ 63 := by
          rw [← Int64.toInt_minValue]
          exact fun h => hleast ⟨Int64.toInt_inj.1 h, hneg⟩
        rw [hneg, show (-1 : Int64).toInt = -1 from rfl, Int.tdiv_neg, Int.tdiv_one, FitsInt64]
        omega
      · have htwo : 2 ≤ n.toInt.natAbs := by
          have hzero : n.toInt ≠ 0 := toInt_eq_zero_iff.not.2 hn
          have hone' : n.toInt ≠ 1 := fun h => hone (Int64.toInt_inj.1 h)
          have hneg' : n.toInt ≠ -1 := fun h => hneg (Int64.toInt_inj.1 h)
          omega
        have hhalf : (m.toInt.tdiv n.toInt).natAbs ≤ m.toInt.natAbs / 2 := by
          rw [Int.natAbs_tdiv]
          exact Nat.div_le_div_left htwo Nat.two_pos
        rw [FitsInt64]
        omega

theorem fitsInt64_tmod (hn : n ≠ 0) : FitsInt64 (m.toInt.tmod n.toInt) := by
  have hless := (isRemainder_tmod (m := m.toInt) (toInt_eq_zero_iff.not.2 hn)).natAbs_lt
  obtain ⟨hlow, hhigh⟩ := fitsInt64_toInt n
  rw [FitsInt64]
  omega

end Ranges

/-! ## Numbers -/

namespace Number

variable {m n : Int64}

theorem isZero_toBinary64_int : (int n).toBinary64.isZero = true ↔ n = 0 := by
  rw [toBinary64, Binary64.isZero_ofInt_iff, toInt_eq_zero_iff]

theorem div?_zero (a : Number) : a.div? (int 0) = none := if_pos (isZero_toBinary64_int.2 rfl)

theorem rem?_zero (a : Number) : a.rem? (int 0) = none := if_pos (isZero_toBinary64_int.2 rfl)

theorem div?_int (hn : n ≠ 0) (hfits : FitsInt64 (m.toInt.tdiv n.toInt)) :
    ∃ q : Int64, q.toInt = m.toInt.tdiv n.toInt ∧ (int m).div? (int n) = some (int q) := by
  obtain ⟨q, hq, hvalue⟩ := (exactIf_combine Int.tdiv Binary64.div m n).integer hfits
  exact ⟨q, hq, (if_neg (isZero_toBinary64_int.not.2 hn)).trans (congrArg some hvalue)⟩

theorem rem?_int (hn : n ≠ 0) (hfits : FitsInt64 (m.toInt.tdiv n.toInt)) :
    ∃ r : Int64, IsRemainder m.toInt n.toInt r.toInt ∧
      (int m).rem? (int n) = some (int r) := by
  obtain ⟨q, hq⟩ := Option.isSome_iff_exists.1 (fitsInt64_iff.1 hfits)
  obtain ⟨r, hr⟩ := Option.isSome_iff_exists.1 (fitsInt64_iff.1 (fitsInt64_tmod m hn))
  have hremainder : remainder? m n = some r := by
    rw [remainder?, quotient?, hq, Option.bind_some, hr]
  refine ⟨r, ?_, ?_⟩
  · rw [toInt_of_int64?_eq_some hr]
    exact isRemainder_tmod (toInt_eq_zero_iff.not.2 hn)
  · rw [rem?, if_neg (isZero_toBinary64_int.not.2 hn), combine, hremainder]

/-- The quotient that is out of range is exact in double precision. -/
theorem div?_minValue : (int Int64.minValue).div? (int (-1)) = some (float (.ofInt (2 ^ 63))) := by
  decide

/-- The remainder is computed in double precision where the quotient is out of range. -/
theorem rem?_minValue : (int Int64.minValue).rem? (int (-1)) = some (float (.zero true)) := by
  decide

end Number

/-! ## Operators -/

theorem Value.asObject?_of_integer? {v : Value} {n : Int64} (h : v.integer? = some n) :
    v.asObject? = none := by
  cases v with
  | object members => exact absurd h.symm (Option.some_ne_none n)
  | _ => rfl

namespace Calculation

variable {a b : Value} {m n : Int64}

theorem binary?_of_integer? (op : Number → Number → Option Number) (ha : a.integer? = some m)
    (hb : b.integer? = some n) : binary? op [a, b] = op (.int m) (.int n) := by
  simp only [binary?, argument, List.getElem?_cons_zero, List.getElem?_cons_succ, Option.getD_some,
    Value.toNumber?_of_integer? ha, Value.toNumber?_of_integer? hb]

end Calculation

namespace Engine

variable {engine : Engine} {a b : Value} {m n : Int64}

theorem yields_calculation_of_integers (hdepth : 2 ≤ engine.maxDepth) (ha : a.integer? = some m)
    (hb : b.integer? = some n) (c : Calculation) (data : Value) :
    engine.Yields (Eager.over (.calculation c) [a, b]) data (c.apply [a, b]) := by
  refine yields_of_literals hdepth (.calculation c) ?_ data
  refine List.forall_mem_cons.2 ⟨?_, List.forall_mem_singleton.2 ?_⟩
  · exact Form.ofValue_plain (Value.asObject?_of_integer? ha)
  · exact Form.ofValue_plain (Value.asObject?_of_integer? hb)

/-- The quotient and the remainder of integers, given as such or as numerals. There is none by zero.
Otherwise a quotient in range is an integer, and one out of range the float with its value. The
remainder is an integer too, but for that of the least integer by minus one, which is a float. -/
theorem yields_of_division (hdepth : 2 ≤ engine.maxDepth) (ha : a.integer? = some m)
    (hb : b.integer? = some n) (data : Value) :
    (n = 0 →
      engine.Yields (Eager.over (.calculation .divide) [a, b]) data .null ∧
        engine.Yields (Eager.over (.calculation .remainder) [a, b]) data .null) ∧
    (n ≠ 0 →
      (FitsInt64 (m.toInt.tdiv n.toInt) → ∃ q : Int64, q.toInt = m.toInt.tdiv n.toInt ∧
        engine.Yields (Eager.over (.calculation .divide) [a, b]) data (.int q)) ∧
      (¬ FitsInt64 (m.toInt.tdiv n.toInt) →
        engine.Yields (Eager.over (.calculation .divide) [a, b]) data
          (.float (.ofInt (m.toInt.tdiv n.toInt)))) ∧
      (¬ (m = Int64.minValue ∧ n = -1) → ∃ r : Int64, IsRemainder m.toInt n.toInt r.toInt ∧
        engine.Yields (Eager.over (.calculation .remainder) [a, b]) data (.int r)) ∧
      (m = Int64.minValue ∧ n = -1 →
        engine.Yields (Eager.over (.calculation .remainder) [a, b]) data
          (.float (.zero true)))) := by
  have hquotient : engine.Yields (Eager.over (.calculation .divide) [a, b]) data
      (Calculation.numberOrNull ((Number.int m).div? (.int n))) := by
    rw [← Calculation.binary?_of_integer? Number.div? ha hb]
    exact yields_calculation_of_integers hdepth ha hb .divide data
  have hremainder : engine.Yields (Eager.over (.calculation .remainder) [a, b]) data
      (Calculation.numberOrNull ((Number.int m).rem? (.int n))) := by
    rw [← Calculation.binary?_of_integer? Number.rem? ha hb]
    exact yields_calculation_of_integers hdepth ha hb .remainder data
  refine ⟨?_, fun hn => ⟨fun hfits => ?_, fun hfits => ?_, fun hleast => ?_, ?_⟩⟩
  · rintro rfl
    rw [Number.div?_zero] at hquotient
    rw [Number.rem?_zero] at hremainder
    exact ⟨hquotient, hremainder⟩
  · obtain ⟨q, hq, hvalue⟩ := Number.div?_int hn hfits
    rw [hvalue] at hquotient
    exact ⟨q, hq, hquotient⟩
  · rw [fitsInt64_tdiv_iff m hn, not_not] at hfits
    obtain ⟨rfl, rfl⟩ := hfits
    rw [Number.div?_minValue] at hquotient
    exact hquotient
  · obtain ⟨r, hr, hvalue⟩ := Number.rem?_int hn ((fitsInt64_tdiv_iff m hn).2 hleast)
    rw [hvalue] at hremainder
    exact ⟨r, hr, hremainder⟩
  · rintro ⟨rfl, rfl⟩
    rw [Number.rem?_minValue] at hremainder
    exact hremainder

/-- A negative numeral by a positive integer. -/
theorem yields_of_division_numeral :
    Value.integer? (.string " -7") = some (-7) ∧ Value.integer? (.int 2) = some 2 ∧
      ∃ r : Int64, IsRemainder (-7) 2 r.toInt ∧
        ({} : Engine).Yields (Eager.over (.calculation .remainder) [.string " -7", .int 2]) .null
          (.int r) := by
  have htext : Value.integer? (.string " -7") = some (-7) := by decide +kernel
  have hint : Value.integer? (.int 2) = some 2 := rfl
  have hdepth : 2 ≤ ({} : Engine).maxDepth := by decide
  have hremainder := ((yields_of_division hdepth htext hint .null).2 (by decide)).2.2.1
  exact ⟨htext, hint, hremainder (by decide)⟩

/-- The remainder of the least integer by minus one is zero, but not the integer. -/
theorem not_yields_integer_remainder :
    ¬ ∀ m n : Int64, n ≠ 0 → ∃ r : Int64, IsRemainder m.toInt n.toInt r.toInt ∧
      ({} : Engine).apply (Eager.over (.calculation .remainder) [.int m, .int n]) .null =
        .ok (.int r) := by
  intro h
  obtain ⟨r, -, hinteger⟩ := h Int64.minValue (-1) (by decide)
  have hdepth : 2 ≤ ({} : Engine).maxDepth := by decide
  have hleast : Value.integer? (.int Int64.minValue) = some Int64.minValue := rfl
  have hone : Value.integer? (.int (-1)) = some (-1) := rfl
  have hyields := yields_calculation_of_integers hdepth hleast hone .remainder .null
  have hvalue : Calculation.apply .remainder [.int Int64.minValue, .int (-1)] =
      .float (.zero true) := congrArg Calculation.numberOrNull Number.rem?_minValue
  rw [hvalue] at hyields
  cases hinteger.symm.trans hyields.1

end Engine

end JsonRules
