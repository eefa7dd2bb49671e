import JsonRules.Operator.Calculation
import JsonRules.Proofs.Text.Slice

/-!
# Parts of texts

Main statement: the operator for parts of a text gives the characters between the two positions that
its numbers name, and nothing goes wrong on the way to them in 64-bit integers. Split at any number,
a text falls into two parts that make it up again (`Calculation.substr_eq_slice`).
-/

namespace JsonRules

namespace Calculation

theorem apply_substr (v : Value) (start : Int64) (count? : Option Int64) :
    apply .substr (v :: .int start :: (count?.map Value.int).toList) =
      .string (String.ofList
        (Text.slice v.stringForm.toList start.toInt (count?.map Int64.toInt))) := by
  rw [← Text.substring_eq]
  cases count? <;> rfl

/-- The part of the string form of a value that starts at a number and has a length, if that is
given. It is what stands between the positions meant, and it is found without an overflow or a cut
out of range. The part of some length and the part from there on are the whole. -/
theorem substr_eq_slice (v : Value) :
    (∀ (start : Int64) (count? : Option Int64), ∃ (first last : Int) (part : List Char),
      apply .substr (v :: .int start :: (count?.map Value.int).toList) =
          .string (String.ofList part) ∧
        first = Text.sliceStart v.stringForm.toList.length start.toInt ∧
        last = Text.sliceEnd v.stringForm.toList.length first (count?.map Int64.toInt) ∧
        Text.IsSlice v.stringForm.toList first last part ∧
        (v.stringForm.toList.length ≤ Int64.maxValue.toInt →
          Text.sliceInt64? v.stringForm.toList start count? = some part)) ∧
    ∀ k : Int64, ∃ front back : String,
      apply .substr [v, .int 0, .int k] = .string front ∧
        apply .substr [v, .int k] = .string back ∧ front ++ back = v.stringForm := by
  refine ⟨fun start count? => ?_, fun k => ?_⟩
  · have hslice := Text.isSlice_slice v.stringForm.toList start.toInt (count?.map Int64.toInt)
    exact ⟨_, _, _, apply_substr v start count?, rfl, rfl, hslice,
      fun hlength => Text.sliceInt64?_eq hlength start count?⟩
  · refine ⟨_, _, apply_substr v 0 (some k), apply_substr v k none, ?_⟩
    rw [← String.ofList_append]
    exact (congrArg String.ofList (Text.slice_append_slice _ k.toInt)).trans String.ofList_toList

/-- The last two of three characters, all that there are of the greatest number asked for. -/
theorem substr_eq_slice_umlauts :
    (String.toList "aöü").length ≤ Int64.maxValue.toInt ∧
      apply .substr [.string "aöü", .int (-2), .int Int64.maxValue] = .string "öü" ∧
      Text.sliceInt64? (String.toList "aöü") (-2) (some Int64.maxValue) =
        some (String.toList "öü") := by
  have hlength : (String.toList "aöü").length ≤ Int64.maxValue.toInt := by decide
  obtain ⟨_, _, part, hpart, -, -, -, hint⟩ :=
    (substr_eq_slice (.string "aöü")).1 (-2) (some Int64.maxValue)
  have hvalue : apply .substr [.string "aöü", .int (-2), .int Int64.maxValue] = .string "öü" := rfl
  have heq : part = String.toList "öü" := by
    have htext := Value.string.inj (hpart.symm.trans hvalue)
    rw [← htext, String.toList_ofList]
  exact ⟨hlength, hvalue, heq ▸ hint hlength⟩

end Calculation

end JsonRules
