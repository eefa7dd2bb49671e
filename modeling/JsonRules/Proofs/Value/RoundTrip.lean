import JsonRules.Proofs.Value.Textual
import JsonRules.Value.Variant

/-!
# Values through JSON

A value is turned into JSON as a text or as a tree, and read from either. The text of its tree is its
own text (`write_toJson`), and a tree fits first what it is converted to (`firstFit?_eq`), so both
ways keep the same: everything but the floats that are not finite (`json_lossless`).
-/

namespace JsonRules

namespace Json

theorem allWrite_eq_map (items : List Json) : allWrite items = items.map write := by
  induction items with
  | nil => rfl
  | cons j rest ih => rw [allWrite, ih, List.map_cons]

theorem membersWrite_eq_map (members : List (String × Json)) :
    membersWrite members = members.map fun m => memberText m.1 m.2.write := by
  induction members with
  | nil => rfl
  | cons m rest ih => rw [membersWrite, ih, List.map_cons]

end Json

namespace Value

/-! ## Reading without tags -/

mutual

/-- Every tree fits a constructor, and the first one is that of the value it is converted to. -/
theorem firstFit?_eq : ∀ j, firstFit? j = some (ofJson j)
  | .null => rfl
  | .bool _ => rfl
  | .integer n => by
    unfold firstFit? Variant.all ofJson ofJsonInteger
    cases h : int64? n <;> simp [fit?, h]
  | .decimal _ => rfl
  | .string _ => rfl
  | .array items => by
    have hitems := allFirstFit?_eq items
    simp [firstFit?, Variant.all, fit?, ofJson, hitems]
  | .object members => by
    have hmembers := membersFirstFit?_eq members
    simp [firstFit?, Variant.all, fit?, ofJson, hmembers]

theorem allFirstFit?_eq : ∀ items, allFirstFit? items = some (allOfJson items)
  | [] => rfl
  | j :: rest => by
    have hj := firstFit?_eq j
    rw [firstFit?] at hj
    rw [allFirstFit?, hj, allFirstFit?_eq rest, allOfJson]

theorem membersFirstFit?_eq : ∀ members, membersFirstFit? members = some (membersOfJson members)
  | [] => rfl
  | (k, j) :: rest => by
    have hj := firstFit?_eq j
    rw [firstFit?] at hj
    rw [membersFirstFit?, hj, membersFirstFit?_eq rest, membersOfJson]

end

/-- Reading a text without tags is converting its tree. -/
theorem decode?_eq (text : String) : decode? text = ofJsonText? text := by
  have hfit : firstFit? = some ∘ ofJson := funext firstFit?_eq
  rw [decode?, ofJsonText?, hfit, Option.map_eq_bind]

/-! ## Both ways -/

/-- The text of a value is the text of its tree. -/
theorem write_toJson (v : Value) : v.toJson.write = v.jsonText := by
  induction v with
  | null => rfl
  | bool b => rfl
  | int n => rfl
  | float x =>
    by_cases h : x.isFinite = true
    · rw [toJson, if_pos h]
      rfl
    · rw [toJson, if_neg h, jsonText, Json.decimalText, if_neg h]
      rfl
  | string s => rfl
  | array items ih =>
    have hitems : items.map (fun v => v.toJson.write) = items.map jsonText :=
      List.map_congr_left ih
    rw [toJson, allToJson_eq_map, Json.write, Json.allWrite_eq_map, List.map_map, jsonText,
      allJsonText_eq_map, ← hitems]
    rfl
  | object members ih =>
    have hmembers : members.map (fun m => Json.memberText m.1 m.2.toJson.write) =
        members.map fun m => Json.memberText m.1 m.2.jsonText :=
      List.map_congr_left fun m hm => congrArg (Json.memberText m.1) (ih m hm)
    rw [toJson, membersToJson_eq_map, Json.write, Json.membersWrite_eq_map, List.map_map, jsonText,
      membersJsonText_eq_map, ← hmembers]
    rfl

/-- A value that goes through JSON, as text or as tree, loses nothing but its floats that are not
finite, and has one text in both ways. As text it comes back unless it has more arrays and objects
inside one another than a text may have. -/
theorem json_lossless {v : Value} (hv : v.WellFormed) :
    decode? v.jsonText = (if v.nesting ≤ Json.maxNesting then some v.finitePart else none) ∧
      ofJson v.toJson = v.finitePart ∧ v.toJson.write = v.jsonText :=
  ⟨(decode?_eq v.jsonText).trans (ofJsonText?_jsonText hv), ofJson_toJson v, write_toJson v⟩

/-- Numbers of all kinds: the integer and the float one, a negative zero, and what is not finite. -/
def measurements : Value :=
  .object [("exact", .array [.int 1, .float ⟨0x3FF0000000000000⟩, .float ⟨0x8000000000000000⟩]),
    ("lost", .array [.float .nan, .singleton "over\n" (.float (.infinity true))])]

theorem json_lossless_measurements :
    measurements.WellFormed ∧
      decode? measurements.jsonText =
        some (.object
          [("exact", .array [.int 1, .float ⟨0x3FF0000000000000⟩, .float ⟨0x8000000000000000⟩]),
            ("lost", .array [.null, .singleton "over\n" .null])]) ∧
      ofJson measurements.toJson = measurements.finitePart ∧
      measurements.toJson.write = measurements.jsonText := by
  have horder : "exact" < "lost" := by decide
  have hwellFormed : measurements.WellFormed := by
    refine ⟨List.pairwise_pair.2 horder, ?_⟩
    simp [MembersWellFormed, WellFormed, AllWellFormed, singleton, Members.Sorted]
  obtain ⟨hdecode, hconvert, hwrite⟩ := json_lossless hwellFormed
  have hnesting : measurements.nesting ≤ Json.maxNesting := by decide
  rw [if_pos hnesting] at hdecode
  exact ⟨hwellFormed, hdecode, hconvert, hwrite⟩

end Value

end JsonRules
