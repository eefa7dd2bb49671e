import JsonRules.Proofs.Binary64.Rounding
import JsonRules.Proofs.Json.Trees
import JsonRules.Proofs.Value.Json

/-!
# Values of JSON texts

The values that have a JSON text of their own are the `Textual` ones: their floats are finite and
the members of their objects are in order. Main statements:

* every value that is read from a text is textual (`textual_of_ofJsonText?`);
* of any value in which members are in order the finite part is read back from its text, in which
  null stands for the other floats (`ofJsonText?_jsonText`), unless too many arrays and objects are
  inside one another in it; a textual value is its own finite part (`Textual.finitePart_eq`);
* a textual value is the same as itself (`Textual.same_self`);
* what rules are taken apart into, calculate and are put together to from textual values is textual
  (`compositional_textual`).
-/

namespace JsonRules

namespace Value

/-- A value in which all floats are finite and the members of all objects are in order. -/
inductive Textual : Value → Prop where
  | null : Textual null
  | bool (b : Bool) : Textual (bool b)
  | int (n : Int64) : Textual (int n)
  | float {x : Binary64} (h : x.isFinite = true) : Textual (float x)
  | string (s : String) : Textual (string s)
  | array {items : List Value} (h : ∀ v ∈ items, Textual v) : Textual (array items)
  | object {members : List (String × Value)} (hsorted : Members.Sorted members)
      (h : ∀ m ∈ members, Textual m.2) : Textual (object members)

theorem compositional_textual : Compositional Textual where
  null := .null
  item := by
    intro items h
    cases h with
    | array hitems => exact hitems
  member := by
    intro key v h
    cases h with
    | object hsorted hmembers => exact hmembers (key, v) List.mem_cons_self
  bool := .bool
  int := .int
  float := .float
  string := .string
  array := .array
  singleton := by
    intro key v h
    exact .object (List.pairwise_singleton _ _) (List.forall_mem_singleton.2 h)

variable {v : Value}

theorem Textual.wellFormed (h : v.Textual) : v.WellFormed := by
  induction v with
  | array items ih =>
    cases h with
    | array hitems => exact allWellFormed_iff.2 fun v hv => ih v hv (hitems v hv)
  | object members ih =>
    cases h with
    | object hsorted hmembers =>
      exact ⟨hsorted, membersWellFormed_iff.2 fun m hm => ih m hm (hmembers m hm)⟩
  | _ => exact trivial

/-! ## Comparison -/

theorem allSame_self {items : List Value} (h : ∀ v ∈ items, v.same v = true) :
    allSame items items = true := by
  induction items with
  | nil => rfl
  | cons v rest ih =>
    obtain ⟨hv, hrest⟩ := List.forall_mem_cons.1 h
    rw [allSame, hv, ih hrest, Bool.and_true]

theorem membersSame_self {members : List (String × Value)}
    (h : ∀ m ∈ members, m.2.same m.2 = true) : membersSame members members = true := by
  induction members with
  | nil => rfl
  | cons m rest ih =>
    obtain ⟨hm, hrest⟩ := List.forall_mem_cons.1 h
    rw [membersSame, hm, ih hrest, beq_self_eq_true, Bool.and_true, Bool.and_true]

/-- A textual value is the same as itself, which values with a NaN in them are not. -/
theorem Textual.same_self (h : v.Textual) : v.same v = true := by
  induction v with
  | null => rfl
  | bool b => exact beq_self_eq_true b
  | int n => exact beq_self_eq_true n
  | float x =>
    cases h with
    | float hfinite =>
      rw [same, Binary64.equals_self, Binary64.isNaN_of_isFinite hfinite, Bool.not_false]
  | string s => exact beq_self_eq_true s
  | array items ih =>
    cases h with
    | array hitems => exact allSame_self fun v hv => ih v hv (hitems v hv)
  | object members ih =>
    cases h with
    | object hsorted hmembers => exact membersSame_self fun m hm => ih m hm (hmembers m hm)

/-! ## Values of trees -/

theorem allOfJson_eq_map (items : List Json) : allOfJson items = items.map ofJson := by
  induction items with
  | nil => rfl
  | cons j rest ih => rw [allOfJson, ih, List.map_cons]

theorem membersOfJson_eq_map (members : List (String × Json)) :
    membersOfJson members = members.map fun m => (m.1, ofJson m.2) := by
  induction members with
  | nil => rfl
  | cons m rest ih => rw [membersOfJson, ih, List.map_cons]

/-- An integer of a tree becomes an integer or, with more than 64 bits, a finite float. -/
theorem textual_ofJsonInteger {n : Int} (hlow : Int64.minValue.toInt ≤ n)
    (hhigh : n < UInt64.size) : (ofJsonInteger n).Textual := by
  have hmin := Int64.toInt_minValue
  have hsize : n.natAbs < UInt64.size := by
    rw [UInt64.size] at hhigh ⊢
    omega
  unfold ofJsonInteger
  split
  · exact .int _
  · exact .float (Binary64.isFinite_ofInt hsize)

/-- Trees that are read have textual values. -/
theorem closedUnderReading_textual : Json.ClosedUnderReading fun j => (ofJson j).Textual where
  null := .null
  bool := .bool
  integer := textual_ofJsonInteger
  decimal := .float
  string := .string
  array := by
    intro items h
    rw [ofJson, allOfJson_eq_map]
    exact .array (List.forall_mem_map.2 h)
  object := by
    intro entries h
    rw [ofJson, membersOfJson_eq_map]
    refine .object (List.pairwise_map.2 (Members.sorted_ofList entries)) ?_
    exact List.forall_mem_map.2 fun m hm => h m (Members.mem_of_mem_ofList hm)

theorem textual_of_ofJsonText? {text : String} (h : ofJsonText? text = some v) : v.Textual := by
  obtain ⟨j, hread, rfl⟩ := Option.map_eq_some_iff.1 h
  exact closedUnderReading_textual.of_read? hread

/-! ## Finite parts -/

mutual

/-- The value with null in the place of every float that is not finite. -/
def finitePart : Value → Value
  | float x => ofFinite x
  | array items => array (allFinitePart items)
  | object members => object (membersFinitePart members)
  | v => v

/-- The finite parts of values. -/
def allFinitePart : List Value → List Value
  | [] => []
  | v :: rest => finitePart v :: allFinitePart rest

/-- The members with the finite parts of their values. -/
def membersFinitePart : List (String × Value) → List (String × Value)
  | [] => []
  | (k, v) :: rest => (k, finitePart v) :: membersFinitePart rest

end

theorem allFinitePart_eq_map (items : List Value) : allFinitePart items = items.map finitePart := by
  induction items with
  | nil => rfl
  | cons v rest ih => rw [allFinitePart, ih, List.map_cons]

theorem membersFinitePart_eq_map (members : List (String × Value)) :
    membersFinitePart members = members.map fun m => (m.1, m.2.finitePart) := by
  induction members with
  | nil => rfl
  | cons m rest ih => rw [membersFinitePart, ih, List.map_cons]

/-- Only the floats that are not finite are lost on the way through the tree of a value. -/
theorem ofJson_toJson (v : Value) : ofJson v.toJson = v.finitePart := by
  induction v with
  | null => rfl
  | bool b => rfl
  | int n =>
    rw [toJson, ofJson, ofJsonInteger, int64?_toInt]
    rfl
  | float x =>
    rw [toJson, finitePart, ofFinite]
    split <;> rfl
  | string s => rfl
  | array items ih =>
    have hitems : items.map (fun v => ofJson v.toJson) = items.map finitePart :=
      List.map_congr_left ih
    rw [toJson, allToJson_eq_map, ofJson, allOfJson_eq_map, List.map_map, finitePart,
      allFinitePart_eq_map, ← hitems]
    rfl
  | object members ih =>
    have hmembers : members.map (fun m => (m.1, ofJson m.2.toJson)) =
        members.map fun m => (m.1, m.2.finitePart) :=
      List.map_congr_left fun m hm => congrArg (m.1, ·) (ih m hm)
    rw [toJson, membersToJson_eq_map, ofJson, membersOfJson_eq_map, List.map_map, finitePart,
      membersFinitePart_eq_map, ← hmembers]
    rfl

/-- A textual value is its own finite part. -/
theorem Textual.finitePart_eq (h : v.Textual) : v.finitePart = v := by
  induction v with
  | float x =>
    cases h with
    | float hfinite => exact if_pos hfinite
  | array items ih =>
    cases h with
    | array hitems =>
      have hsame := List.map_congr_left fun v hv => ih v hv (hitems v hv)
      rw [finitePart, allFinitePart_eq_map]
      exact congrArg Value.array (hsame.trans (List.map_id' items))
  | object members ih =>
    cases h with
    | object hsorted hmembers =>
      have hsame : members.map (fun m => (m.1, m.2.finitePart)) = members.map id :=
        List.map_congr_left fun m hm => congrArg (m.1, ·) (ih m hm (hmembers m hm))
      rw [finitePart, membersFinitePart_eq_map]
      exact congrArg Value.object (hsame.trans (List.map_id members))
  | _ => rfl

/-- The finite part of a value is read back from its text, or refused for its nesting. -/
theorem ofJsonText?_jsonText (h : v.WellFormed) :
    ofJsonText? v.jsonText = if v.nesting ≤ Json.maxNesting then some v.finitePart else none := by
  rw [ofJsonText?, read?_jsonText h, ← ofJson_toJson]
  split <;> rfl

/-- A textual value is read back from its own text, or refused for its nesting. -/
theorem Textual.ofJsonText?_jsonText (h : v.Textual) :
    ofJsonText? v.jsonText = if v.nesting ≤ Json.maxNesting then some v else none := by
  rw [Value.ofJsonText?_jsonText h.wellFormed, h.finitePart_eq]

end Value

end JsonRules
