import JsonRules.Proofs.Path
import JsonRules.Proofs.Value.Write

/-!
# Contexts that are written to

What is read from a context after something has been written at a path, and what is left of two
writes. The path of a write is split at its dots, whatever it is; the empty path is read as the whole
context, and this is the only path at which reading and writing do not meet
(`Context.get?_insert_eq_some_iff`). A write keeps what stands at paths that part from its own, but
for what is inside an array that it comes upon (`Context.get?_insert_of_apart`). Two writes commute,
or one of them takes away or goes into the other (`Context.insert_insert`).
-/

namespace JsonRules

theorem Value.nesting_lt_of_member? {v inner : Value} {key : String}
    (h : v.member? key = some inner) : inner.nesting < v.nesting := by
  cases v with
  | object members =>
    have hmem : (key, inner) ∈ members := Members.mem_of_find? h
    have hle := Value.membersNesting_le_iff.1 (Nat.le_refl (membersNesting members)) _ hmem
    exact Nat.lt_succ_of_le hle
  | _ => exact absurd h.symm (Option.some_ne_none inner)

namespace Context

/-! ## Reading after a write -/

theorem get?_of_ne_empty {path : String} (h : path ≠ "") (context : Context) :
    context.get? path = (Path.mk (dottedSegments path)).resolve? context.data :=
  Value.resolve?_of_ne_empty h context.data

/-- What was written at a path is read back from it, unless the path is the empty one: then the value
stands under the empty key, and the whole context is read. -/
theorem get?_insert_eq_some_iff (context : Context) (path : String) (value : Value) :
    (context.insert path value).get? path = some value ↔ path ≠ "" := by
  constructor
  · rintro h rfl
    have hwhole : (context.insert "" value).data = value := Option.some.inj h
    have hmember : (context.insert "" value).data.member? "" = some value := by
      have hsegments : dottedSegments "" = [""] := rfl
      rw [insert, hsegments, Value.member?_write_cons, if_pos rfl]
      rfl
    have hlt := Value.nesting_lt_of_member? hmember
    rw [hwhole] at hlt
    exact absurd hlt (Nat.lt_irrefl _)
  · intro h
    rw [get?_of_ne_empty h, insert, Value.resolve?_write]

/-- What is written at the empty path is not read back from it. -/
theorem get?_insert_empty_path :
    ¬ ∀ (path : String) (value : Value), (empty.insert path value).get? path = some value := by
  intro h
  have hread : (empty.insert "" (.int 1)).get? "" = some (.singleton "" (.int 1)) := rfl
  have hwritten := h "" (.int 1)
  rw [hread] at hwritten
  exact absurd (Option.some.inj hwritten) (by simp [Value.singleton])

/-- A write changes nothing at paths that part from its own, as long as there is no array where both
paths still agree. Such an array gives way to an object, and nothing is left of what it held. -/
theorem get?_insert_of_apart {p q : String} (hq : q ≠ "")
    (hpq : ¬ dottedSegments p <+: dottedSegments q) (hqp : ¬ dottedSegments q <+: dottedSegments p)
    (context : Context) (value : Value) :
    (¬ context.data.ArrayOnCommonWay (dottedSegments p) (dottedSegments q) →
        (context.insert p value).get? q = context.get? q) ∧
      (context.data.ArrayOnCommonWay (dottedSegments p) (dottedSegments q) →
        (context.insert p value).get? q = none) := by
  have hapart : Apart (dottedSegments p) (dottedSegments q) := apart_iff.2 ⟨hpq, hqp⟩
  rw [get?_of_ne_empty hq, get?_of_ne_empty hq, insert]
  constructor
  · intro harray
    exact Value.resolve?_write_of_apart hapart harray value
  · intro harray
    exact Value.resolve?_write_eq_none hapart harray value

/-- A user with a name and two scores. -/
def profile : Context :=
  (empty.insert "user.name" (.string "alice")).insert "user.scores" (.array [.int 10, .int 20])

theorem get?_insert_of_apart_profile :
    (¬ profile.data.ArrayOnCommonWay (dottedSegments "user.age") (dottedSegments "user.name") ∧
        (profile.insert "user.age" (.int 30)).get? "user.name" = some (.string "alice")) ∧
      profile.data.ArrayOnCommonWay (dottedSegments "user.scores.0")
        (dottedSegments "user.scores.1") ∧
      (profile.insert "user.scores.0" (.int 5)).get? "user.scores.1" = none := by
  have hclear : ¬ profile.data.ArrayOnCommonWay (dottedSegments "user.age")
      (dottedSegments "user.name") := by
    intro h
    exact Value.not_arrayOnCommonWay_here rfl (by decide) [] []
      ((Value.arrayOnCommonWay_there_iff rfl).1 h)
  have harray : profile.data.ArrayOnCommonWay (dottedSegments "user.scores.0")
      (dottedSegments "user.scores.1") :=
    ⟨["user", "scores"], [.int 10, .int 20], by decide, by decide, rfl⟩
  have hname := (get?_insert_of_apart (p := "user.age") (q := "user.name") (by decide) (by decide)
    (by decide) profile (.int 30)).1 hclear
  have hscore := (get?_insert_of_apart (p := "user.scores.0") (q := "user.scores.1") (by decide)
    (by decide) (by decide) profile (.int 5)).2 harray
  exact ⟨⟨hclear, hname.trans rfl⟩, harray, hscore⟩

/-- A write into an array takes away what is read from another item of it. -/
theorem get?_insert_item :
    "a.0" ≠ "" ∧ "a.1" ≠ "" ∧ ¬ dottedSegments "a.0" <+: dottedSegments "a.1" ∧
      ¬ dottedSegments "a.1" <+: dottedSegments "a.0" ∧
      (empty.insert "a" (.array [.int 10, .int 20])).get? "a.1" = some (.int 20) ∧
      ((empty.insert "a" (.array [.int 10, .int 20])).insert "a.0" (.int 5)).get? "a.1" = none :=
  ⟨by decide, by decide, by decide, by decide, rfl, rfl⟩

/-! ## Two writes -/

/-- Two writes may be made in any order if their paths part. A write takes away what was written at
its path and below, and a write below goes into the value that was written. -/
theorem insert_insert (context : Context) (p q : String) (v w : Value) :
    (¬ dottedSegments p <+: dottedSegments q → ¬ dottedSegments q <+: dottedSegments p →
        (context.insert p v).insert q w = (context.insert q w).insert p v) ∧
      (dottedSegments p <+: dottedSegments q →
        (context.insert q w).insert p v = context.insert p v) ∧
      ∀ rest, dottedSegments q = dottedSegments p ++ rest →
        (context.insert p v).insert q w = context.insert p (v.write rest w) := by
  simp only [insert, mk.injEq]
  refine ⟨fun hpq hqp => ?_, ?_, fun rest hrest => ?_⟩
  · exact Value.write_comm (apart_iff.2 ⟨hpq, hqp⟩) context.data v w
  · rintro ⟨rest, hrest⟩
    rw [← hrest, Value.write_append_write]
  · rw [hrest, Value.write_write_append]

theorem insert_insert_profile :
    (profile.insert "user.age" (.int 30)).insert "user.name" .null =
        (profile.insert "user.name" .null).insert "user.age" (.int 30) ∧
      (profile.insert "user.name" .null).insert "user" (.int 1) = profile.insert "user" (.int 1) ∧
      (profile.insert "user" (.int 1)).insert "user.name.first" .null =
        profile.insert "user" (.singleton "name" (.singleton "first" .null)) := by
  obtain ⟨hcomm, -, -⟩ := insert_insert profile "user.age" "user.name" (.int 30) .null
  obtain ⟨-, habove, -⟩ := insert_insert profile "user" "user.name" (.int 1) .null
  obtain ⟨-, -, hbelow⟩ := insert_insert profile "user" "user.name.first" (.int 1) .null
  exact ⟨hcomm (by decide) (by decide), habove (by decide), hbelow ["name", "first"] rfl⟩

end Context

end JsonRules
