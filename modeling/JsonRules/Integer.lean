/-!
# Bounded integers

The 64-bit integers among the integers, and two sums of them: one that fails if it is out of range,
and one that stops at the ends of the range. Main statement: `int64?` succeeds exactly on the numbers
in range, and then its result stands for the same number.
-/

namespace JsonRules

/-- The 64-bit integer with the given value, if the value is in range. -/
def int64? (n : Int) : Option Int64 :=
  if Int64.minValue.toInt ≤ n ∧ n ≤ Int64.maxValue.toInt then some (Int64.ofInt n) else none

theorem toInt_of_int64?_eq_some {n : Int} {i : Int64} (h : int64? n = some i) : i.toInt = n := by
  rw [int64?] at h
  split at h
  · rename_i hn
    rw [← Option.some.inj h]
    exact Int64.toInt_ofInt_of_le hn.1 (Int.lt_add_one_of_le hn.2)
  · exact absurd h.symm (Option.some_ne_none i)

theorem int64?_isSome_iff {n : Int} :
    (int64? n).isSome = true ↔ Int64.minValue.toInt ≤ n ∧ n ≤ Int64.maxValue.toInt := by
  rw [int64?]
  split <;> simp_all

theorem int64?_toInt (i : Int64) : int64? i.toInt = some i := by
  rw [int64?, if_pos ⟨i.minValue_le_toInt, i.toInt_le⟩, Int64.ofInt_toInt]

/-- The sum of two integers unless it overflows. -/
def addInt64? (a b : Int64) : Option Int64 := int64? (a.toInt + b.toInt)

/-- The sum of two integers, cut off at the ends of the range. -/
def saturatingAdd (a b : Int64) : Int64 :=
  Int64.ofInt (max Int64.minValue.toInt (min Int64.maxValue.toInt (a.toInt + b.toInt)))

end JsonRules
