import JsonRules.Proofs.Value.Basic
import JsonRules.Proofs.Wire.Basic
import JsonRules.Wire.Value

/-!
# Reading back values

A well-formed value is read back as it was written (`restores_value`), and every value that is read
is well-formed (`yields_value`), because the members of objects are put in order.
-/

namespace JsonRules

namespace Wire

theorem writeItems_eq_flatMap (items : List Value) :
    writeItems items = items.flatMap writeValue := by
  induction items with
  | nil => rfl
  | cons v rest ih => rw [writeItems, ih, List.flatMap_cons]

/-- The bytes of a member. -/
def writeMember (member : String × Value) : List UInt8 := writeText member.1 ++ writeValue member.2

theorem writeMembers_eq_flatMap (members : List (String × Value)) :
    writeMembers members = members.flatMap writeMember := by
  induction members with
  | nil => rfl
  | cons m rest ih => rw [writeMembers, ih, List.flatMap_cons, writeMember]

/-- The bytes of a value start with the number of its constructor. -/
theorem exists_writeValue_eq (v : Value) :
    ∃ tag bytes, writeValue v = writeVarint tag ++ bytes := by
  cases v with
  | null => exact ⟨0, [], (List.append_nil _).symm⟩
  | bool b => exact ⟨1, _, rfl⟩
  | int n => exact ⟨2, _, rfl⟩
  | float x => exact ⟨3, _, rfl⟩
  | string s => exact ⟨4, _, rfl⟩
  | array items => exact ⟨5, _, List.append_assoc ..⟩
  | object members => exact ⟨6, _, List.append_assoc ..⟩

theorem length_writeValue_pos (v : Value) : 0 < (writeValue v).length := by
  obtain ⟨tag, bytes, e⟩ := exists_writeValue_eq v
  rw [e, List.length_append]
  exact Nat.add_pos_left (length_writeVarint_pos tag) _

theorem length_writeMember_pos (m : String × Value) : 0 < (writeMember m).length := by
  rw [writeMember, List.length_append]
  exact Nat.add_pos_left (length_writeText_pos _) _

theorem zigzag_lt (n : Int64) : zigzag n < 2 ^ (8 * countWidth) := by
  have hlo := n.le_toInt
  have hhi := n.toInt_lt
  rw [zigzag, countWidth]
  split <;> omega

theorem restores_member {read : Reader Value} {member : String × Value}
    (h : Restores read (writeValue member.2) member.2) :
    Restores (readMember read) (writeMember member) member :=
  (restores_text member.1).bind (h.map fun value => (member.1, value))

theorem restores_tag {tag : Nat} (h : tag < 7) :
    Restores (readVarint positionWidth) (writeVarint tag) tag :=
  restores_position (Nat.lt_trans h (by decide))

/-- A well-formed value is read back if enough nesting is allowed for. -/
theorem restores_valueWithin {v : Value} {nesting : Nat} (hv : v.WellFormed)
    (hnesting : v.nesting < nesting) : Restores (readValueWithin nesting) (writeValue v) v := by
  induction nesting generalizing v with
  | zero => exact absurd hnesting (Nat.not_lt_zero _)
  | succ nesting ih =>
    cases v with
    | null => exact (@restores_tag 0 (by decide)).bind_nil (.pure _)
    | bool b => exact (restores_tag (by decide)).bind ((restores_bool b).map Value.bool)
    | int n =>
      have h := (restores_count (zigzag_lt n)).map fun m => Value.int (unzigzag m)
      rw [unzigzag_zigzag] at h
      exact (restores_tag (by decide)).bind h
    | float x =>
      have hbits : x.bits.toNat < 2 ^ (8 * 8) := x.bits.toNat_lt
      have h := (restores_fixed hbits).map fun n => Value.float ⟨UInt64.ofNat n⟩
      rw [UInt64.ofNat_toNat] at h
      exact (restores_tag (by decide)).bind h
    | string s => exact (restores_tag (by decide)).bind ((restores_text s).map Value.string)
    | array items =>
      have hitems : ∀ v ∈ items, Restores (readValueWithin nesting) (writeValue v) v := by
        intro v hmem
        have hle := Value.allNesting_le_iff.1 (Nat.le_refl _) v hmem
        exact ih (Value.allWellFormed_iff.1 hv v hmem)
          (Nat.lt_of_le_of_lt hle (Nat.lt_of_succ_lt_succ hnesting))
      rw [writeValue, List.append_assoc, writeItems_eq_flatMap]
      exact (restores_tag (by decide)).bind
        ((restores_list length_writeValue_pos hitems).map Value.array)
    | object members =>
      have hmembers : ∀ m ∈ members,
          Restores (readMember (readValueWithin nesting)) (writeMember m) m := by
        intro m hmem
        have hle := Value.membersNesting_le_iff.1 (Nat.le_refl _) m hmem
        exact restores_member (ih (Value.membersWellFormed_iff.1 hv.2 m hmem)
          (Nat.lt_of_le_of_lt hle (Nat.lt_of_succ_lt_succ hnesting)))
      have h := (restores_list length_writeMember_pos hmembers).map fun entries =>
        Value.object (Members.ofList entries)
      rw [Members.ofList_eq_self hv.1] at h
      rw [writeValue, List.append_assoc, writeMembers_eq_flatMap]
      exact (restores_tag (by decide)).bind h

/-- A value takes more bytes than it has arrays and objects inside one another. -/
theorem nesting_lt_length (v : Value) : v.nesting < (writeValue v).length := by
  induction v with
  | array items ih =>
    have hitems : Value.allNesting items ≤ (items.flatMap writeValue).length :=
      Value.allNesting_le_iff.2 fun v hv =>
        Nat.le_trans (Nat.le_of_lt (ih v hv)) (length_le_length_flatMap_of_mem hv)
    have htag := length_writeVarint_pos 5
    have hcount := length_writeVarint_pos items.length
    rw [writeValue, writeItems_eq_flatMap, List.length_append, List.length_append, Value.nesting]
    omega
  | object members ih =>
    have hmember : ∀ m : String × Value, (writeValue m.2).length ≤ (writeMember m).length :=
      fun m => (List.sublist_append_right _ _).length_le
    have hmembers : Value.membersNesting members ≤ (members.flatMap writeMember).length :=
      Value.membersNesting_le_iff.2 fun m hm => Nat.le_trans (Nat.le_of_lt (ih m hm))
        (Nat.le_trans (hmember m) (length_le_length_flatMap_of_mem hm))
    have htag := length_writeVarint_pos 6
    have hcount := length_writeVarint_pos members.length
    rw [writeValue, writeMembers_eq_flatMap, List.length_append, List.length_append, Value.nesting]
    omega
  | _ => exact length_writeValue_pos _

/-- A well-formed value is read back. -/
theorem restores_value {v : Value} (hv : v.WellFormed) : Restores readValue (writeValue v) v := by
  intro hlength rest
  refine restores_valueWithin hv ?_ hlength rest
  have := nesting_lt_length v
  rw [List.length_append]
  omega

/-! ## Values that are read -/

theorem yields_member {read : Reader Value} {P : Value → Prop} (h : Yields read P) :
    Yields (readMember read) fun m => P m.2 :=
  (Yields.trivial _).bind fun _ _ => h.bind fun _ hvalue => .pure hvalue

theorem yields_valueWithin (nesting : Nat) : Yields (readValueWithin nesting) Value.WellFormed := by
  induction nesting with
  | zero => exact .failure
  | succ nesting ih =>
    refine (Yields.trivial _).bind ?_
    intro tag _
    split
    · exact .pure trivial
    · exact (Yields.trivial _).bind fun _ _ => .pure trivial
    · exact (Yields.trivial _).bind fun _ _ => .pure trivial
    · exact (Yields.trivial _).bind fun _ _ => .pure trivial
    · exact (Yields.trivial _).bind fun _ _ => .pure trivial
    · exact (yields_list ih).bind fun items h => .pure (Value.allWellFormed_iff.2 h)
    · refine (yields_list (yields_member ih)).bind fun entries h => .pure ?_
      refine ⟨Members.sorted_ofList entries, Value.membersWellFormed_iff.2 fun m hm => ?_⟩
      exact h m (Members.mem_of_mem_ofList hm)
    · exact .failure

/-- Whatever value is read is well-formed. -/
theorem yields_value : Yields readValue Value.WellFormed :=
  fun bytes v rest e => yields_valueWithin bytes.length bytes v rest e

end Wire

end JsonRules
