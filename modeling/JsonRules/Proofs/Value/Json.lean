import JsonRules.Proofs.Json.Reader
import JsonRules.Value.Json

/-!
# Values read back from texts

A text reads back as a value if it is read as the tree of the value, unless arrays and objects are
too deeply inside one another in it or it is not legible at all (`Value.ReadsBack`). What is written
for an array or an object reads back if what is written for its parts does, whatever notation the
parts are in (`readsBack_array`, `readsBack_object`). The JSON text of a value is always legible
(`WellFormed.readsBack_jsonText`).
-/

namespace JsonRules

namespace Value

theorem allToJson_eq_map (items : List Value) : allToJson items = items.map toJson := by
  induction items with
  | nil => rfl
  | cons v rest ih => rw [allToJson, ih, List.map_cons]

theorem membersToJson_eq_map (members : List (String × Value)) :
    membersToJson members = members.map fun m => (m.1, m.2.toJson) := by
  induction members with
  | nil => rfl
  | cons m rest ih => rw [membersToJson, ih, List.map_cons]

theorem allJsonText_eq_map (items : List Value) : allJsonText items = items.map jsonText := by
  induction items with
  | nil => rfl
  | cons v rest ih => rw [allJsonText, ih, List.map_cons]

theorem membersJsonText_eq_map (members : List (String × Value)) :
    membersJsonText members = members.map fun m => Json.memberText m.1 m.2.jsonText := by
  induction members with
  | nil => rfl
  | cons m rest ih => rw [membersJsonText, ih, List.map_cons]

/-! ## Numerals -/

/-- The numeral that an integer is written as, sign aside. -/
def intNumeral (n : Int) : Numeral := ⟨Text.writeNat n.natAbs, none, none⟩

theorem toList_intText (n : Int64) :
    (intText n).toList =
      if decide (n.toInt < 0) then '-' :: (intNumeral n.toInt).text
      else (intNumeral n.toInt).text := by
  have htext : (intNumeral n.toInt).text = Text.writeNat n.toInt.natAbs := List.append_nil _
  rw [intText, String.toList_ofList, Text.writeInt, htext]
  simp only [decide_eq_true_eq]

/-- The integers of 64 bits are among those that a tree has. -/
theorem ofInteger?_natAbs (n : Int64) :
    Json.ofInteger? (decide (n.toInt < 0)) n.toInt.natAbs = some (.integer n.toInt) := by
  have hlow := n.minValue_le_toInt
  have hhigh := n.toInt_lt
  unfold Json.ofInteger?
  by_cases h : n.toInt < 0
  · have habs : -(n.toInt.natAbs : Int) = n.toInt := by omega
    have hne : n.toInt.natAbs ≠ 0 := by omega
    rw [decide_eq_true h, if_pos rfl, habs, if_pos ⟨hne, hlow⟩]
  · have habs : (n.toInt.natAbs : Int) = n.toInt := by omega
    have hlt : n.toInt.natAbs < UInt64.size := by
      rw [UInt64.size]
      omega
    rw [decide_eq_false h, if_neg Bool.false_ne_true, if_pos hlt, habs]

/-! ## Reading texts -/

/-- The text is read as the tree of the value, with any text behind it that a value may be followed
by, or refused: always if it is not legible, and otherwise if there are too many arrays and objects
inside one another. -/
structure ReadsBack (text : String) (legible : Bool) (v : Value) : Prop where
  starts : ∃ c cs, text.toList = c :: cs ∧ Json.isSpace c = false ∧ c ≠ ']'
  reads : ∀ (nesting : Nat) {rest : List Char}, Json.Delimited rest →
    Json.readWithin nesting (text.toList ++ rest) =
      if legible = true ∧ v.nesting ≤ nesting then some (v.toJson, rest) else none

theorem ReadsBack.read? {text : String} {legible : Bool} {v : Value}
    (h : ReadsBack text legible v) :
    Json.read? text =
      if legible = true ∧ v.nesting ≤ Json.maxNesting then some v.toJson else none := by
  obtain ⟨c, cs, htext, hspace, -⟩ := h.starts
  have hread := h.reads Json.maxNesting Json.delimited_nil
  have hskip : Json.skipSpace text.toList = text.toList := by
    rw [htext, Json.skipSpace_cons hspace]
  rw [List.append_nil] at hread
  rw [Json.read?, hskip, hread]
  split <;> rfl

theorem readsBack_null : ReadsBack "null" true null where
  starts := ⟨'n', _, rfl, rfl, by decide⟩
  reads nesting _ _ := Json.readWithin_scalar nesting (by decide) (by decide) _

theorem readsBack_bool (b : Bool) : ReadsBack (boolText b) true (bool b) where
  starts := by cases b <;> exact ⟨_, _, rfl, rfl, by decide⟩
  reads nesting _ _ := by
    cases b <;> exact Json.readWithin_scalar nesting (by decide) (by decide) _

/-- A numeral is read as the number that it stands for. -/
theorem readsBack_numeral {text : String} {v : Value} {negative : Bool} {n : Numeral}
    (hproper : n.Proper) (htext : text.toList = if negative then '-' :: n.text else n.text)
    (hparts : Json.ofParts? negative n.whole n.fraction? n.exponent? = some v.toJson)
    (hv : v.nesting = 0) : ReadsBack text true v where
  starts := by
    obtain ⟨c, cs, hcons, hc⟩ := Json.exists_signed_text_eq_cons negative hproper
    obtain ⟨hspace, hclose, -, -⟩ := Json.ne_of_isDigit_or_minus hc
    exact ⟨c, cs, htext.trans hcons, hspace, hclose⟩
  reads nesting rest hrest := by
    rw [htext, Json.readWithin_numeral nesting _ hproper hrest, hparts,
      if_pos ⟨rfl, hv ▸ Nat.zero_le nesting⟩, Option.map_some]

theorem readsBack_int (n : Int64) : ReadsBack (intText n) true (int n) := by
  refine readsBack_numeral (Numeral.proper_writeNat _) (toList_intText n) ?_ rfl
  have hvalue : Text.digitsValue (intNumeral n.toInt).whole = n.toInt.natAbs :=
    Text.digitsValue_writeNat _
  change Json.ofInteger? _ (Text.digitsValue (intNumeral n.toInt).whole) = _
  rw [hvalue, ofInteger?_natAbs, toJson]

/-- A float is read from a numeral with a point or an exponent whose decimal rounds to it. -/
theorem readsBack_float {text : String} {x : Binary64} {n : Numeral} (h : x.isFinite = true)
    (hproper : n.Proper) (hparts : n.fraction?.isSome ∨ n.exponent?.isSome)
    (htext : text.toList = if x.isNegative then '-' :: n.text else n.text)
    (hread : n.decimal.toBinary64 x.isNegative = x) : ReadsBack text true (float x) := by
  refine readsBack_numeral hproper htext ?_ rfl
  rw [Json.ofParts?_decimal _ hparts, Json.ofDecimal?, toJson, if_pos h]
  simp only [hread, h, if_true]

/-- Floats that are not finite have the text of null, and its tree. -/
theorem readsBack_decimalText (x : Binary64) : ReadsBack (Json.decimalText x) true (float x) := by
  by_cases h : x.isFinite = true
  · obtain ⟨n, hproper, hparts, htext, hread⟩ :=
      @Decimal.exists_numeral_write Json.style rfl x h
    refine readsBack_float h hproper hparts ?_ hread
    rw [Json.decimalText, if_pos h, String.toList_ofList, htext]
  · have htree : (float x).toJson = null.toJson := if_neg h
    rw [Json.decimalText, if_neg h]
    exact ⟨readsBack_null.starts, fun nesting _ hrest => htree ▸ readsBack_null.reads nesting hrest⟩

theorem readsBack_string {written s : String} {readable : Bool}
    (h : Json.ReadsText written readable s) : ReadsBack written readable (string s) := by
  obtain ⟨cs, hwritten, hread⟩ := h
  refine ⟨⟨'"', cs, hwritten, rfl, by decide⟩, fun nesting rest hrest => ?_⟩
  rw [hwritten, List.cons_append, Json.readWithin_scalar nesting (by decide) (by decide)]
  change (Json.readString (cs ++ rest)).map _ = _
  rw [hread]
  cases readable with
  | false => rfl
  | true =>
    rw [if_pos rfl, if_pos ⟨rfl, Nat.zero_le nesting⟩, toJson, Option.map_some]
    simp only [String.ofList_toList]

section Containers

variable (text : Value → String) (legible : Value → Bool)

theorem readsBack_array {items : List Value} (h : ∀ v ∈ items, ReadsBack (text v) (legible v) v) :
    ReadsBack (Json.arrayText (items.map text)) (items.all legible) (array items) := by
  refine ⟨⟨'[', _, Json.toList_arrayText _, rfl, by decide⟩, fun nesting rest hrest => ?_⟩
  -- without a level that is left the text is refused, and so is the nesting of the array
  cases nesting with
  | zero =>
    rw [if_neg fun h => Nat.not_succ_le_zero _ h.2, Json.toList_arrayText]
    exact Json.readWithin_zero_array _
  | succ nesting =>
    have hiff : (∀ v ∈ items, legible v = true ∧ v.nesting ≤ nesting) ↔
        items.all legible = true ∧ (array items).nesting ≤ nesting + 1 := by
      rw [List.all_eq_true, Value.nesting, Nat.add_le_add_iff_right, allNesting_le_iff]
      exact forall₂_and
    have hread := Json.readWithin_arrayText
      (fun v hv rest hrest => (h v hv).reads nesting hrest) (fun v hv => (h v hv).starts) rest
    rw [hread, toJson, allToJson_eq_map]
    simp only [hiff]

theorem readsBack_object {members : List (String × Value)} (hsorted : Members.Sorted members)
    (quote : String → String) (readable : String → Bool)
    (hkey : ∀ m ∈ members, Json.ReadsText (quote m.1) (readable m.1) m.1)
    (h : ∀ m ∈ members, ReadsBack (text m.2) (legible m.2) m.2) :
    ReadsBack (Json.objectText (members.map fun m => quote m.1 ++ ":" ++ text m.2))
      (members.all fun m => readable m.1 && legible m.2) (object members) := by
  refine ⟨⟨'{', _, Json.toList_objectText _, rfl, by decide⟩, fun nesting rest hrest => ?_⟩
  cases nesting with
  | zero =>
    rw [if_neg fun h => Nat.not_succ_le_zero _ h.2, Json.toList_objectText]
    exact Json.readWithin_zero_object _
  | succ nesting =>
    have hiff : (∀ m ∈ members, readable m.1 = true ∧ legible m.2 = true ∧ m.2.nesting ≤ nesting) ↔
        (members.all fun m => readable m.1 && legible m.2) = true ∧
          (object members).nesting ≤ nesting + 1 := by
      rw [List.all_eq_true, Value.nesting, Nat.add_le_add_iff_right, membersNesting_le_iff]
      simp only [Bool.and_eq_true, ← and_assoc]
      exact forall₂_and
    have hread := Json.readWithin_objectText hsorted hkey
      (fun m hm rest hrest => (h m hm).reads nesting hrest) (fun m hm => (h m hm).starts) rest
    rw [hread, toJson, membersToJson_eq_map]
    simp only [hiff]

end Containers

/-- Every value whose members are in order is read back from its text as its tree. -/
theorem WellFormed.readsBack_jsonText {v : Value} (hv : v.WellFormed) :
    ReadsBack v.jsonText true v := by
  induction v with
  | null => exact readsBack_null
  | bool b => exact readsBack_bool b
  | int n => exact readsBack_int n
  | float x => exact readsBack_decimalText x
  | string s => exact readsBack_string (Json.readsText_quoted s)
  | array items ih =>
    have hitems := allWellFormed_iff.1 hv
    have harray := readsBack_array jsonText (fun _ => true) fun v hmem => ih v hmem (hitems v hmem)
    have hall : (items.all fun _ => true) = true := List.all_eq_true.2 fun _ _ => rfl
    rw [hall] at harray
    rw [jsonText, allJsonText_eq_map]
    exact harray
  | object members ih =>
    have hmembers := membersWellFormed_iff.1 hv.2
    have hobject := readsBack_object jsonText (fun _ => true) hv.1 Json.quoted (fun _ => true)
      (fun m _ => Json.readsText_quoted m.1) fun m hmem => ih m hmem (hmembers m hmem)
    have hall : (members.all fun _ => true && true) = true := List.all_eq_true.2 fun _ _ => rfl
    rw [hall] at hobject
    rw [jsonText, membersJsonText_eq_map]
    exact hobject

/-- The text of a value is the text of its tree if there are not too many arrays and objects inside
one another. -/
theorem read?_jsonText {v : Value} (hv : v.WellFormed) :
    Json.read? v.jsonText = if v.nesting ≤ Json.maxNesting then some v.toJson else none := by
  rw [hv.readsBack_jsonText.read?]
  simp only [true_and]

end Value

end JsonRules
