import JsonRules.Text.Slice
import Mathlib.Data.Int.Basic
import Mathlib.Order.Lattice

/-!
# Slices in 64-bit integers

The bounds of a slice are positions in the text, the first not behind the second, and a slice is
what stands between them (`isSlice_slice`). What comes before a position and what comes from it on
is the whole text, whichever end the position is counted from (`slice_append_slice`).

Computed in 64-bit integers, where a sum can overflow and only positions in the text can be cut at,
the bounds come out the same (`sliceInt64?_eq`): a negative number is added to a length only, and
what is added to a position is cut off at the largest integer, which no text is longer than.
-/

namespace JsonRules

namespace Text

variable {cs : List Char}

/-! ## Bounds -/

/-- Some characters are those between two positions. -/
def IsSlice (cs : List Char) (first last : Int) (part : List Char) : Prop :=
  ∃ before behind : List Char, cs = before ++ part ++ behind ∧ (before.length : Int) = first ∧
    ((before ++ part).length : Int) = last

/-- What lies between two positions in a text. -/
theorem isSlice_take_drop {first last : Int} (hfirst : 0 ≤ first) (hle : first ≤ last)
    (hlast : last ≤ cs.length) :
    IsSlice cs first last ((cs.drop first.toNat).take (last - first).toNat) := by
  obtain ⟨first, rfl⟩ := Int.eq_ofNat_of_zero_le hfirst
  obtain ⟨size, rfl⟩ := Int.le.dest hle
  have hsize : ((first : Int) + size - first).toNat = size := by omega
  rw [Int.toNat_natCast, hsize]
  refine ⟨cs.take first, cs.drop (first + size), ?_, ?_, ?_⟩
  · rw [← List.drop_drop, List.append_assoc, List.take_append_drop, List.take_append_drop]
  · rw [List.length_take]
    omega
  · rw [List.length_append, List.length_take, List.length_take, List.length_drop]
    omega

theorem isSlice_slice (cs : List Char) (start : Int) (count? : Option Int) :
    IsSlice cs (sliceStart cs.length start)
      (sliceEnd cs.length (sliceStart cs.length start) count?) (slice cs start count?) := by
  have hfirst := sliceStart_le cs.length start
  exact isSlice_take_drop (sliceStart_nonneg cs.length start) (le_sliceEnd hfirst count?)
    (sliceEnd_le hfirst count?)

/-- Where a slice from the start ends, the slice from the same number on starts. -/
theorem sliceEnd_zero (length : Nat) (k : Int) :
    sliceEnd length (sliceStart length 0) (some k) = sliceStart length k := by
  simp only [sliceStart, sliceEnd]
  split <;> omega

theorem slice_append_slice (cs : List Char) (k : Int) :
    slice cs 0 (some k) ++ slice cs k none = cs := by
  have hzero : sliceStart cs.length 0 = 0 := by
    rw [sliceStart, if_neg (lt_irrefl 0)]
    omega
  have hfront : slice cs 0 (some k) = cs.take (sliceStart cs.length k).toNat := by
    rw [slice, sliceEnd_zero, hzero, Int.toNat_zero, List.drop_zero, Int.sub_zero]
  have hback : slice cs k none = cs.drop (sliceStart cs.length k).toNat := by
    have hstart := sliceStart_nonneg cs.length k
    rw [slice, sliceEnd, List.take_of_length_le]
    rw [List.length_drop]
    omega
  rw [hfront, hback, List.take_append_drop]

end Text

/-! ## Sums of 64-bit integers -/

section Sums

variable {a b : Int64}

theorem addInt64?_eq (h : Int64.minValue.toInt ≤ a.toInt + b.toInt)
    (h' : a.toInt + b.toInt ≤ Int64.maxValue.toInt) :
    ∃ c, addInt64? a b = some c ∧ c.toInt = a.toInt + b.toInt := by
  obtain ⟨c, hc⟩ := Option.isSome_iff_exists.1 (int64?_isSome_iff.2 ⟨h, h'⟩)
  exact ⟨c, hc, toInt_of_int64?_eq_some hc⟩

theorem toInt_saturatingAdd (a b : Int64) :
    (saturatingAdd a b).toInt =
      max Int64.minValue.toInt (min Int64.maxValue.toInt (a.toInt + b.toInt)) := by
  have hrange : Int64.minValue.toInt ≤ Int64.maxValue.toInt := by decide
  have hhigh := max_le hrange (min_le_left Int64.maxValue.toInt (a.toInt + b.toInt))
  exact Int64.toInt_ofInt_of_le (le_max_left _ _) (Int.lt_add_one_of_le hhigh)

theorem toInt_min (a b : Int64) : (min a b).toInt = min a.toInt b.toInt := by
  by_cases h : a ≤ b
  · rw [min_eq_left (Int64.le_iff_toInt_le.1 h)]
    exact congrArg Int64.toInt (if_pos h)
  · rw [min_eq_right (le_of_not_ge (Int64.le_iff_toInt_le.not.1 h))]
    exact congrArg Int64.toInt (if_neg h)

theorem toInt_max (a b : Int64) : (max a b).toInt = max a.toInt b.toInt := by
  by_cases h : a ≤ b
  · rw [max_eq_right (Int64.le_iff_toInt_le.1 h)]
    exact congrArg Int64.toInt (if_pos h)
  · rw [max_eq_left (le_of_not_ge (Int64.le_iff_toInt_le.not.1 h))]
    exact congrArg Int64.toInt (if_neg h)

theorem neg_iff_toInt : a < 0 ↔ a.toInt < 0 := Int64.lt_iff_toInt_lt

end Sums

namespace Text

/-! ## Slices in 64-bit integers -/

section Bounds

variable {length : Int64} {n : Nat}

theorem toInt_lengthInt64 (h : cs.length ≤ Int64.maxValue.toInt) :
    (lengthInt64 cs).toInt = cs.length := by
  have hmin : Int64.minValue.toInt ≤ (cs.length : Int) :=
    le_trans (by decide) (Int.natCast_nonneg cs.length)
  obtain ⟨i, hi⟩ := Option.isSome_iff_exists.1 (int64?_isSome_iff.2 ⟨hmin, h⟩)
  rw [lengthInt64, hi, Option.getD_some, toInt_of_int64?_eq_some hi]

theorem sliceStartInt64?_eq (h : length.toInt = n) (start : Int64) :
    ∃ first, sliceStartInt64? length start = some first ∧
      first.toInt = sliceStart n start.toInt := by
  rw [sliceStart]
  by_cases hstart : start.toInt < 0
  · have hlow := start.minValue_le_toInt
    have hhigh := length.toInt_le
    obtain ⟨sum, hsum, hvalue⟩ := addInt64?_eq (a := length) (b := start) (by omega) (by omega)
    refine ⟨max sum 0, ?_, ?_⟩
    · rw [sliceStartInt64?, if_pos (neg_iff_toInt.2 hstart), hsum, Option.map_some]
    · rw [if_pos hstart, toInt_max, hvalue, h, max_comm]
      rfl
  · refine ⟨min start length, if_neg (neg_iff_toInt.not.2 hstart), ?_⟩
    rw [if_neg hstart, toInt_min, h]

theorem sliceEndInt64?_eq (h : length.toInt = n) {first : Int64} (hfirst : 0 ≤ first.toInt)
    (count? : Option Int64) :
    ∃ last, sliceEndInt64? length first count? = some last ∧
      last.toInt = sliceEnd n first.toInt (count?.map Int64.toInt) := by
  have hhigh := length.toInt_le
  cases count? with
  | none => exact ⟨length, rfl, h⟩
  | some count =>
    rw [Option.map_some, sliceEnd]
    by_cases hcount : count.toInt < 0
    · have hlow := count.minValue_le_toInt
      obtain ⟨sum, hsum, hvalue⟩ := addInt64?_eq (a := length) (b := count) (by omega) (by omega)
      refine ⟨max sum first, ?_, ?_⟩
      · rw [sliceEndInt64?, if_pos (neg_iff_toInt.2 hcount), hsum, Option.map_some]
      · rw [if_pos hcount, toInt_max, hvalue, h, max_comm]
    · -- A position beyond the largest integer is beyond the end, which it is cut off at anyway.
      have hmin : Int64.minValue.toInt ≤ 0 := by decide
      refine ⟨min (saturatingAdd first count) length, if_neg (neg_iff_toInt.not.2 hcount), ?_⟩
      rw [if_neg hcount, toInt_min, toInt_saturatingAdd, h]
      omega

end Bounds

theorem cut?_eq {first last : Int64} (hfirst : 0 ≤ first.toInt) (hle : first.toInt ≤ last.toInt)
    (hlast : last.toInt ≤ cs.length) :
    cut? cs first last =
      some ((cs.drop first.toInt.toNat).take (last.toInt - first.toInt).toNat) := by
  have hsigns : ¬ (first < 0 ∨ last < 0) := by
    rw [neg_iff_toInt, neg_iff_toInt]
    omega
  have hmax : max last.toInt.toNat first.toInt.toNat = last.toInt.toNat := by omega
  have hsize : (last.toInt - first.toInt).toNat = last.toInt.toNat - first.toInt.toNat := by omega
  simp only [cut?, if_neg hsigns, hmax, hsize]
  exact if_pos (by omega)

/-- No sum overflows and nothing is cut out of range, however large start and count are. -/
theorem sliceInt64?_eq (h : cs.length ≤ Int64.maxValue.toInt) (start : Int64)
    (count? : Option Int64) :
    sliceInt64? cs start count? = some (slice cs start.toInt (count?.map Int64.toInt)) := by
  have hlength := toInt_lengthInt64 h
  obtain ⟨first, hfirst, hstart⟩ := sliceStartInt64?_eq hlength start
  have hnonneg : 0 ≤ first.toInt := hstart ▸ sliceStart_nonneg cs.length start.toInt
  have hinside : first.toInt ≤ cs.length := hstart ▸ sliceStart_le cs.length start.toInt
  obtain ⟨last, hlast, hend⟩ := sliceEndInt64?_eq hlength hnonneg count?
  have hle := le_sliceEnd hinside (count?.map Int64.toInt)
  have hlelength := sliceEnd_le hinside (count?.map Int64.toInt)
  rw [← hend] at hle hlelength
  simp only [sliceInt64?, hfirst, hlast, Option.bind_eq_bind, Option.bind_some]
  rw [cut?_eq hnonneg hle hlelength, hend, slice, hstart]

/-- The slice that is taken is the one that is meant. -/
theorem substring_eq (cs : List Char) (start : Int64) (count? : Option Int64) :
    substring cs start count? = slice cs start.toInt (count?.map Int64.toInt) := by
  unfold substring
  split
  · rename_i h
    rw [sliceInt64?_eq h, Option.getD_some]
  · rfl

end Text

end JsonRules
