import JsonRules.Proofs.Decimal.Integral
import JsonRules.Proofs.Text.Quoted
import JsonRules.Proofs.Value.RoundTrip

/-!
# The display as JSON

The display of a value has the brackets, the literals and the integers of JSON, and a finite float is
JSON in either of its two notations (`readsBack_display_of_isFinite`). Quoted texts are JSON if their
characters are plain, and the names of the other floats are not (`readWithin_nonFiniteText`). So what
is displayed is read back as the value unless something in the value is illegible or too many arrays
and objects are inside one another, and then it is refused (`decode?_display`).
-/

namespace JsonRules

namespace Value

mutual

/-- Whether all floats of a value are finite and all characters of its texts and keys plain. -/
def isLegible : Value → Bool
  | float x => x.isFinite
  | string s => s.toList.all Text.isPlain
  | array items => allLegible items
  | object members => membersLegible members
  | _ => true

/-- Whether all values are legible. -/
def allLegible : List Value → Bool
  | [] => true
  | v :: rest => isLegible v && allLegible rest

/-- Whether all keys and values of members are legible. -/
def membersLegible : List (String × Value) → Bool
  | [] => true
  | (k, v) :: rest => (k.toList.all Text.isPlain && isLegible v) && membersLegible rest

end

theorem allLegible_eq_all (items : List Value) : allLegible items = items.all isLegible := by
  induction items with
  | nil => rfl
  | cons v rest ih => rw [allLegible, ih, List.all_cons]

theorem membersLegible_eq_all (members : List (String × Value)) :
    membersLegible members =
      members.all fun m => m.1.toList.all Text.isPlain && m.2.isLegible := by
  induction members with
  | nil => rfl
  | cons m rest ih => rw [membersLegible, ih, List.all_cons]

theorem displayItems_eq_map (items : List Value) : displayItems items = items.map display := by
  induction items with
  | nil => rfl
  | cons v rest ih => rw [displayItems, ih, List.map_cons]

theorem displayMembers_eq_map (members : List (String × Value)) :
    displayMembers members = members.map fun m => Text.quoted m.1 ++ ":" ++ m.2.display := by
  induction members with
  | nil => rfl
  | cons m rest ih => rw [displayMembers, ih, List.map_cons]

variable {v : Value}

/-- A legible value has a JSON text of its own. -/
theorem WellFormed.textual_of_isLegible (hv : v.WellFormed) (h : v.isLegible = true) :
    v.Textual := by
  induction v with
  | null => exact .null
  | bool b => exact .bool b
  | int n => exact .int n
  | float x => exact .float h
  | string s => exact .string s
  | array items ih =>
    have hitems := allWellFormed_iff.1 hv
    rw [isLegible, allLegible_eq_all, List.all_eq_true] at h
    exact .array fun v hmem => ih v hmem (hitems v hmem) (h v hmem)
  | object members ih =>
    have hmembers := membersWellFormed_iff.1 hv.2
    rw [isLegible, membersLegible_eq_all, List.all_eq_true] at h
    refine .object hv.1 fun m hmem => ih m hmem (hmembers m hmem) ?_
    exact (Bool.and_eq_true_iff.1 (h m hmem)).2

/-! ## Floats -/

/-- A finite float is displayed exactly or with as few digits as it takes, and read back. -/
theorem readsBack_display_of_isFinite {x : Binary64} (h : x.isFinite = true) :
    ReadsBack x.display true (float x) := by
  cases hintegral : x.isIntegral with
  | true =>
    obtain ⟨n, hproper, hfraction, htext, hread⟩ :=
      Decimal.exists_numeral_writeIntegral h hintegral
    refine readsBack_float h hproper (.inl hfraction) ?_ hread
    rw [Binary64.display, h, hintegral, Bool.and_true, if_pos rfl, String.toList_ofList, htext]
  | false =>
    -- the style without the point of an integer writes other numbers like the one with it
    obtain ⟨n, hproper, hparts, htext, hread⟩ :=
      @Decimal.exists_numeral_write { plainStyle with keepsPoint := true } rfl x h
    refine readsBack_float h hproper hparts ?_ hread
    rw [Binary64.display, hintegral, Bool.and_false, if_neg Bool.false_ne_true,
      Binary64.plainText, if_pos h, String.toList_ofList,
      Decimal.Style.write_eq_of_not_isIntegral plainStyle h hintegral, htext]

/-- No number and no literal starts like the name of a float that is not finite. -/
theorem readWithin_nonFiniteText (x : Binary64) (nesting : Nat) (rest : List Char) :
    Json.readWithin nesting (x.nonFiniteText.toList ++ rest) = none := by
  unfold Binary64.nonFiniteText
  split_ifs
  all_goals exact Json.readWithin_scalar nesting (by decide) (by decide) _

theorem readsBack_display_float (x : Binary64) : ReadsBack x.display x.isFinite (float x) := by
  cases h : x.isFinite with
  | true => exact readsBack_display_of_isFinite h
  | false =>
    have hdisplay : x.display = x.nonFiniteText := by
      rw [Binary64.display, h, Bool.false_and, if_neg Bool.false_ne_true, Binary64.plainText, h,
        if_neg Bool.false_ne_true]
    refine hdisplay ▸ ⟨?_, fun nesting rest hrest => ?_⟩
    · unfold Binary64.nonFiniteText
      split_ifs <;> exact ⟨_, _, rfl, by decide, by decide⟩
    · rw [if_neg fun hlegible => Bool.false_ne_true hlegible.1]
      exact readWithin_nonFiniteText x nesting rest

/-! ## Values -/

/-- What is displayed is read as the tree of the value or refused. -/
theorem WellFormed.readsBack_display (hv : v.WellFormed) : ReadsBack v.display v.isLegible v := by
  induction v with
  | null => exact readsBack_null
  | bool b => exact readsBack_bool b
  | int n => exact readsBack_int n
  | float x => exact readsBack_display_float x
  | string s => exact readsBack_string (Json.readsText_quoted_text s)
  | array items ih =>
    have hitems := allWellFormed_iff.1 hv
    rw [display, displayItems_eq_map, isLegible, allLegible_eq_all]
    exact readsBack_array display isLegible fun v hmem => ih v hmem (hitems v hmem)
  | object members ih =>
    have hmembers := membersWellFormed_iff.1 hv.2
    rw [display, displayMembers_eq_map, isLegible, membersLegible_eq_all]
    exact readsBack_object display isLegible hv.1 Text.quoted (fun k => k.toList.all Text.isPlain)
      (fun m _ => Json.readsText_quoted_text m.1) fun m hmem => ih m hmem (hmembers m hmem)

/-- A displayed value is read back as it was, or refused: if it is illegible or has more arrays and
objects inside one another than a text may have. -/
theorem decode?_display (hv : v.WellFormed) :
    decode? v.display =
      if v.isLegible = true ∧ v.nesting ≤ Json.maxNesting then some v else none := by
  rw [decode?_eq, ofJsonText?, hv.readsBack_display.read?]
  split
  · rename_i h
    have htextual := hv.textual_of_isLegible h.1
    rw [Option.map_some, ofJson_toJson, htextual.finitePart_eq]
  · rfl

/-- Texts with quotes and a line end in them, and floats of both notations. -/
def priceTags : Value :=
  .object [("Käse \"jung\"\n", .array [.float ⟨0x4008000000000000⟩, .string "3,00 €"]),
    ("change", .array [.float ⟨0xBFB999999999999A⟩, .int (-1), .null])]

theorem decode?_display_priceTags :
    priceTags.WellFormed ∧ decode? priceTags.display = some priceTags := by
  have horder : "Käse \"jung\"\n" < "change" := by decide
  have hwellFormed : priceTags.WellFormed := by
    refine ⟨List.pairwise_pair.2 horder, ?_⟩
    simp [MembersWellFormed, WellFormed, AllWellFormed]
  have hdecode := decode?_display hwellFormed
  have hlegible : priceTags.isLegible = true ∧ priceTags.nesting ≤ Json.maxNesting := by
    decide +kernel
  rw [if_pos hlegible] at hdecode
  exact ⟨hwellFormed, hdecode⟩

/-- The null character is displayed by an escape that JSON does not have. -/
theorem decode?_display_null_character :
    ¬ ∀ v : Value, v.Textual → v.nesting ≤ Json.maxNesting → decode? v.display = some v := by
  intro h
  have hdecode := h (.string "\x00") (.string _) (by decide)
  have hdisplay : (string "\x00").display = "\"\\0\"" := rfl
  have hrefused : decode? "\"\\0\"" = none := rfl
  rw [hdisplay, hrefused] at hdecode
  cases hdecode

end Value

end JsonRules
