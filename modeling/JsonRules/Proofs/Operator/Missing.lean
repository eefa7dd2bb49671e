import JsonRules.Proofs.Binary64.Integers
import JsonRules.Proofs.Rule.Application

/-!
# Missing keys

A key is missing if a variable with that key has no value. So the inquiries and variables agree on
what the data do not have, although a variable finds its path when it is compiled and an inquiry
when it is run. How many keys are there is counted in double precision, which is exact as long as
there are fewer than `2 ^ 53` of them (`Inquiry.reaches_demand_int`).

Main statement: `Engine.yields_of_inquiry`.
-/

namespace JsonRules

/-! ## Keys -/

namespace Inquiry

variable (data : Value) {keys : List Value}

theorem isMissing_eq (key : Value) :
    isMissing data key = ((data.resolveKey? key).getD .null).isNull := by
  rw [isMissing]
  cases data.resolveKey? key <;> rfl

/-- Keys that name paths are the ones asked for, since none of them is a list of keys. -/
theorem askedKeys_of_pathText? (h : ∀ key ∈ keys, key.pathText?.isSome = true) :
    askedKeys keys = keys := by
  unfold askedKeys
  split
  · exact absurd (h _ List.mem_cons_self) Bool.false_ne_true
  · rfl

/-! ## Demands -/

/-- Whether a count reaches an integer is decided by their values. -/
theorem reaches_demand_int {count : Nat} {need : Int64} (hcount : count ≤ 2 ^ 53)
    (hneed : need.toInt.natAbs ≤ 2 ^ 53) :
    reaches count (demand (.int need)) = true ↔ need.toInt ≤ count := by
  have hdemand : demand (.int need) = .ofInt need.toInt := Binary64.ceil_ofInt hneed
  have hcount' : (count : Int).natAbs ≤ 2 ^ 53 := by rwa [Int.natAbs_natCast]
  rw [reaches, hdemand, Binary64.compare_ofInt hcount' hneed, Option.any_some,
    Ordering.isGE_iff_ne_lt, compare_lt_iff_lt, not_lt]

theorem length_sub_length_missingKeys (keys : List Value) :
    keys.length - (missingKeys data keys).length = keys.countP fun key => !isMissing data key := by
  have hlength := List.length_eq_countP_add_countP (isMissing data) (l := keys)
  have hfound : keys.countP (fun key => decide ¬ isMissing data key = true) =
      keys.countP fun key => !isMissing data key :=
    List.countP_congr fun key _ => by rw [decide_not, Bool.decide_eq_true]
  rw [missingKeys, ← List.countP_eq_length_filter]
  omega

/-- An integer demands as many keys as it says. -/
theorem missingUnless_int {need : Int64} (hneed : need.toInt.natAbs ≤ 2 ^ 53)
    (hlength : keys.length < 2 ^ 53) :
    missingUnless data (.int need) keys =
      if need.toInt ≤ keys.countP (fun key => !isMissing data key) then []
      else missingKeys data keys := by
  have hle : keys.countP (fun key => !isMissing data key) ≤ 2 ^ 53 :=
    le_trans List.countP_le_length hlength.le
  simp only [missingUnless, length_sub_length_missingKeys, reaches_demand_int hle hneed]

end Inquiry

theorem Form.ofValue_of_pathText? {key : Value} (h : key.pathText?.isSome = true) :
    ofValue key = .ok .literal := by
  refine ofValue_plain ?_
  cases key with
  | object members => exact absurd h Bool.false_ne_true
  | _ => rfl

/-! ## Rules -/

namespace Engine

variable {engine : Engine} {keys : List Value}

/-- For keys that name paths, which are texts, integers and the absent value, the inquiries give
those for which a variable has no value, in order. The one that demands a number of keys gives none
if as many have a value. -/
theorem yields_of_inquiry (hdepth : 2 ≤ engine.maxDepth)
    (hkeys : ∀ key ∈ keys, key.pathText?.isSome = true) (data : Value) :
    ∃ (found : Value → Value) (absent : List Value),
      (∀ key ∈ keys, engine.Yields (.singleton variableName key) data (found key)) ∧
      absent = keys.filter (fun key => (found key).isNull) ∧
      engine.Yields (Eager.over (.inquiry .missing) keys) data (.array absent) ∧
      engine.Yields (Eager.over (.inquiry .missing) [.array keys]) data (.array absent) ∧
      ∀ need : Int64, need.toInt.natAbs ≤ 2 ^ 53 → keys.length < 2 ^ 53 →
        engine.Yields (Eager.over (.inquiry .missingSome) [.int need, .array keys]) data
          (.array (if need.toInt ≤ keys.countP (fun key => !(found key).isNull) then []
            else absent)) := by
  have hmissing : Inquiry.isMissing data = fun key => ((data.resolveKey? key).getD .null).isNull :=
    funext (Inquiry.isMissing_eq data)
  refine ⟨fun key => (data.resolveKey? key).getD .null, Inquiry.missingKeys data keys, ?_, ?_, ?_,
    ?_, ?_⟩
  · intro key hkey
    obtain ⟨text, htext⟩ := Option.isSome_iff_exists.1 (hkeys key hkey)
    exact yields_variable (by omega) htext data
  · rw [Inquiry.missingKeys, hmissing]
  · have hyields := yields_of_literals hdepth (.inquiry .missing)
      (fun key hkey => Form.ofValue_of_pathText? (hkeys key hkey)) data
    have hvalue : (Eager.combine (.inquiry .missing) data keys).value =
        .array (Inquiry.missingKeys data (Inquiry.askedKeys keys)) := rfl
    rwa [hvalue, Inquiry.askedKeys_of_pathText? hkeys] at hyields
  · exact yields_of_literals hdepth (.inquiry .missing) (List.forall_mem_singleton.2 rfl) data
  · intro need hneed hlength
    have hliterals : ∀ arg ∈ [.int need, .array keys], Form.ofValue arg = .ok .literal :=
      List.forall_mem_cons.2 ⟨rfl, List.forall_mem_singleton.2 rfl⟩
    have hyields := yields_of_literals hdepth (.inquiry .missingSome) hliterals data
    have hvalue : (Eager.combine (.inquiry .missingSome) data [.int need, .array keys]).value =
        .array (Inquiry.missingUnless data (.int need) keys) := rfl
    rwa [hvalue, Inquiry.missingUnless_int data hneed hlength, hmissing] at hyields

/-- A path to a value that counts as false, one to the absent value, the latter twice, and the
position of an item. -/
def soughtKeys : List Value := [.string "a.b", .string "c", .int 7, .string "c"]

/-- Some data with values at the paths among the sought keys. -/
def sparseData : Value := .object [("a", .object [("b", .bool false)]), ("c", .null)]

theorem yields_of_inquiry_soughtKeys :
    (∀ key ∈ soughtKeys, key.pathText?.isSome = true) ∧
      ({} : Engine).Yields (Eager.over (.inquiry .missingSome) [.int 5, .array soughtKeys])
        sparseData (.array [.string "c", .int 7, .string "c"]) := by
  have hkeys : ∀ key ∈ soughtKeys, key.pathText?.isSome = true := by
    simp [soughtKeys, Value.pathText?]
  have hdepth : 2 ≤ ({} : Engine).maxDepth := by decide
  obtain ⟨found, absent, -, -, hmissing, -, hsome⟩ := yields_of_inquiry hdepth hkeys sparseData
  have hvalue : ({} : Engine).apply (Eager.over (.inquiry .missing) soughtKeys) sparseData =
      .ok (.array [.string "c", .int 7, .string "c"]) := rfl
  have hdemand := hsome 5 (by decide) (by decide)
  have hfew : ¬ (5 : Int64).toInt ≤ soughtKeys.countP fun key => !(found key).isNull := by
    have hlength := List.countP_le_length (p := fun key => !(found key).isNull) (l := soughtKeys)
    have hkeysLength : soughtKeys.length = 4 := rfl
    have hfive : (5 : Int64).toInt = 5 := by decide
    omega
  rw [if_neg hfew, Value.array.inj (Except.ok.inj (hmissing.1.symm.trans hvalue))] at hdemand
  exact ⟨hkeys, hdemand⟩

end Engine

end JsonRules
