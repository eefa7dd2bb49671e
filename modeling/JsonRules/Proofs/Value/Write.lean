import JsonRules.Context
import JsonRules.Proofs.Value.Basic

/-!
# Writing into values

A value is written where a list of segments leads, and read back from there. Two lists are `Apart` if
they part at some segment, so that neither is the beginning of the other. Main statements:

* what was written is read back (`resolve?_write`);
* apart from where it is written, nothing changes (`resolve?_write_of_apart`), unless an array stands
  where both ways still agree: it gives way to an object, and what it held is lost
  (`resolve?_write_eq_none`);
* writing at places that are apart commutes (`write_comm`), writing at a place takes away what was
  written below it (`write_append_write`), and writing below it is writing into what is there
  (`write_write_append`).
-/

namespace JsonRules

/-! ## Ways that part -/

/-- Two lists of segments differ at a place that both of them reach. -/
inductive Apart : List String → List String → Prop where
  | here {s t : String} (h : s ≠ t) (p q : List String) : Apart (s :: p) (t :: q)
  | there (s : String) {p q : List String} (h : Apart p q) : Apart (s :: p) (s :: q)

theorem apart_iff {p q : List String} : Apart p q ↔ ¬ p <+: q ∧ ¬ q <+: p := by
  constructor
  · intro h
    induction h with
    | here h p q =>
      refine ⟨fun hpq => h (List.cons_prefix_cons.1 hpq).1, fun hqp => ?_⟩
      exact h (List.cons_prefix_cons.1 hqp).1.symm
    | there s _ ih =>
      obtain ⟨hpq, hqp⟩ := ih
      refine ⟨fun h => hpq (List.cons_prefix_cons.1 h).2, fun h => ?_⟩
      exact hqp (List.cons_prefix_cons.1 h).2
  · rintro ⟨hpq, hqp⟩
    induction p generalizing q with
    | nil => exact absurd List.nil_prefix hpq
    | cons s p ih =>
      cases q with
      | nil => exact absurd List.nil_prefix hqp
      | cons t q =>
        by_cases hst : s = t
        · subst hst
          refine .there s (ih (fun h => hpq ?_) fun h => hqp ?_)
          · exact List.cons_prefix_cons.2 ⟨rfl, h⟩
          · exact List.cons_prefix_cons.2 ⟨rfl, h⟩
        · exact .here hst p q

theorem Apart.right_ne_nil {p q : List String} (h : Apart p q) : q ≠ [] := by
  cases h <;> simp

namespace Value

variable {data : Value} {s t : String} {p q : List String}

/-! ## Steps -/

/-- What is written into behind a key: the value that the key has, or the absent one. -/
def entry (data : Value) (key : String) : Value := (data.member? key).getD null

theorem find?_members (key : String) (data : Value) :
    Members.find? key data.members = data.member? key := by
  cases data <;> rfl

theorem write_cons (data : Value) (s : String) (p : List String) (v : Value) :
    data.write (s :: p) v = object (Members.insert s ((data.entry s).write p v) data.members) := rfl

theorem member?_write_cons (data : Value) (s t : String) (p : List String) (v : Value) :
    (data.write (s :: p) v).member? t =
      if t = s then some ((data.entry s).write p v) else data.member? t := by
  rw [write_cons, member?, Members.find?_insert, find?_members]

theorem entry_write_cons_self (data : Value) (s : String) (p : List String) (v : Value) :
    (data.write (s :: p) v).entry s = (data.entry s).write p v := by
  rw [entry, member?_write_cons, if_pos rfl, Option.getD_some]

theorem entry_write_cons_of_ne (h : t ≠ s) (data : Value) (p : List String) (v : Value) :
    (data.write (s :: p) v).entry t = data.entry t := by
  rw [entry, member?_write_cons, if_neg h, entry]

/-- Written into behind a key twice, a value has the key once, with both of what was written. -/
theorem write_cons_write_cons (data : Value) (s : String) (p q : List String) (v w : Value) :
    (data.write (s :: p) v).write (s :: q) w =
      object (Members.insert s (((data.entry s).write p v).write q w) data.members) := by
  rw [write_cons (data.write _ _), entry_write_cons_self, write_cons, members,
    Members.insert_insert_self]

theorem resolve?_cons (data : Value) (s : String) (p : List String) :
    (Path.mk (s :: p)).resolve? data = (data.step? s).bind (Path.mk p).resolve? := rfl

theorem step?_of_asArray? (h : data.asArray? = none) (s : String) :
    data.step? s = data.member? s := by
  cases data with
  | array items => exact absurd h (Option.some_ne_none items)
  | _ => rfl

theorem asArray?_write_cons (data : Value) (s : String) (p : List String) (v : Value) :
    (data.write (s :: p) v).asArray? = none := rfl

theorem resolve?_null (h : p ≠ []) : (Path.mk p).resolve? null = none := by
  cases p with
  | nil => exact absurd rfl h
  | cons s p => rfl

/-- Where there is no array, a way leads on behind a key as it does from the value of the key. -/
theorem resolve?_cons_of_asArray? (h : data.asArray? = none) (hp : p ≠ []) (s : String) :
    (Path.mk (s :: p)).resolve? data = (Path.mk p).resolve? (data.entry s) := by
  rw [resolve?_cons, step?_of_asArray? h, entry]
  cases data.member? s with
  | none => exact (resolve?_null hp).symm
  | some inner => rfl

/-! ## What is read after a write -/

/-- What was written is read back. -/
theorem resolve?_write (data : Value) (p : List String) (v : Value) :
    (Path.mk p).resolve? (data.write p v) = some v := by
  induction p generalizing data with
  | nil => rfl
  | cons s p ih =>
    have hstep : (data.write (s :: p) v).step? s = some ((data.entry s).write p v) := by
      rw [step?_of_asArray? (asArray?_write_cons ..), member?_write_cons, if_pos rfl]
    rw [resolve?_cons, hstep, Option.bind_some, ih]

/-- An array stands where two ways still agree. -/
def ArrayOnCommonWay (data : Value) (p q : List String) : Prop :=
  ∃ way items, way <+: p ∧ way <+: q ∧ (Path.mk way).resolve? data = some (array items)

theorem asArray?_of_not_arrayOnCommonWay (h : ¬ data.ArrayOnCommonWay p q) :
    data.asArray? = none := by
  cases data with
  | array items => exact absurd ⟨[], items, List.nil_prefix, List.nil_prefix, rfl⟩ h
  | _ => rfl

theorem not_arrayOnCommonWay_null (p q : List String) : ¬ null.ArrayOnCommonWay p q := by
  rintro ⟨way, items, -, -, hway⟩
  cases way with
  | nil => exact absurd (Option.some.inj hway) (by simp)
  | cons s way => exact absurd hway.symm (Option.some_ne_none _)

/-- Ways that part at once have nothing in common but where they start. -/
theorem not_arrayOnCommonWay_here (h : data.asArray? = none) (hst : s ≠ t) (p q : List String) :
    ¬ data.ArrayOnCommonWay (s :: p) (t :: q) := by
  rintro ⟨way, items, hp, hq, hway⟩
  cases way with
  | nil =>
    obtain rfl := Option.some.inj hway
    exact absurd h (Option.some_ne_none items)
  | cons u way =>
    have hs := (List.cons_prefix_cons.1 hp).1
    have ht := (List.cons_prefix_cons.1 hq).1
    exact hst (hs.symm.trans ht)

theorem arrayOnCommonWay_there_iff (h : data.asArray? = none) :
    data.ArrayOnCommonWay (s :: p) (s :: q) ↔ (data.entry s).ArrayOnCommonWay p q := by
  constructor
  · rintro ⟨way, items, hp, hq, hway⟩
    cases way with
    | nil =>
      obtain rfl := Option.some.inj hway
      exact absurd h (Option.some_ne_none items)
    | cons u way =>
      obtain ⟨rfl, hpRest⟩ := List.cons_prefix_cons.1 hp
      obtain ⟨-, hqRest⟩ := List.cons_prefix_cons.1 hq
      rw [resolve?_cons, step?_of_asArray? h] at hway
      obtain ⟨inner, hinner, hway⟩ := Option.bind_eq_some_iff.1 hway
      refine ⟨way, items, hpRest, hqRest, ?_⟩
      rw [entry, hinner, Option.getD_some, hway]
  · rintro ⟨way, items, hp, hq, hway⟩
    refine ⟨s :: way, items, List.cons_prefix_cons.2 ⟨rfl, hp⟩, List.cons_prefix_cons.2 ⟨rfl, hq⟩, ?_⟩
    rw [resolve?_cons, step?_of_asArray? h]
    rw [entry] at hway
    cases hinner : data.member? s with
    | none =>
      rw [hinner, Option.getD_none] at hway
      exact absurd ⟨way, items, hp, hq, hway⟩ (not_arrayOnCommonWay_null p q)
    | some inner =>
      rw [hinner, Option.getD_some] at hway
      exact hway

/-- A write changes nothing elsewhere if no array is in its way. -/
theorem resolve?_write_of_apart (h : Apart p q) (harray : ¬ data.ArrayOnCommonWay p q) (v : Value) :
    (Path.mk q).resolve? (data.write p v) = (Path.mk q).resolve? data := by
  induction h generalizing data with
  | here hst p q =>
    have hdata := asArray?_of_not_arrayOnCommonWay harray
    rw [resolve?_cons, resolve?_cons, step?_of_asArray? (asArray?_write_cons ..),
      member?_write_cons, if_neg hst.symm, step?_of_asArray? hdata]
  | there s h ih =>
    have hdata := asArray?_of_not_arrayOnCommonWay harray
    have hinner := ih fun hcommon => harray ((arrayOnCommonWay_there_iff hdata).2 hcommon)
    have hq := h.right_ne_nil
    rw [resolve?_cons_of_asArray? (asArray?_write_cons ..) hq, entry_write_cons_self, hinner,
      resolve?_cons_of_asArray? hdata hq]

/-- An array that is in the way of a write is lost with all that it holds. -/
theorem resolve?_write_eq_none (h : Apart p q) (harray : data.ArrayOnCommonWay p q) (v : Value) :
    (Path.mk q).resolve? (data.write p v) = none := by
  induction h generalizing data with
  | @here s t hst p q =>
    have hmember : data.member? t = none := by
      cases data with
      | object members => exact absurd harray (not_arrayOnCommonWay_here rfl hst p q)
      | _ => rfl
    rw [resolve?_cons, step?_of_asArray? (asArray?_write_cons ..), member?_write_cons,
      if_neg hst.symm, hmember]
    rfl
  | @there s p q h ih =>
    have hq := h.right_ne_nil
    rw [resolve?_cons_of_asArray? (asArray?_write_cons ..) hq, entry_write_cons_self]
    by_cases hdata : data.asArray? = none
    · exact ih ((arrayOnCommonWay_there_iff hdata).1 harray)
    · -- Nothing is left behind the key of what was an array.
      have hentry : data.entry s = null := by
        cases data with
        | array items => rfl
        | _ => exact absurd rfl hdata
      rw [hentry, resolve?_write_of_apart h (not_arrayOnCommonWay_null p q), resolve?_null hq]

/-! ## Two writes -/

/-- What was written below a place is taken away by a write at it. -/
theorem write_append_write (data : Value) (p r : List String) (v w : Value) :
    (data.write (p ++ r) w).write p v = data.write p v := by
  induction p generalizing data with
  | nil => rfl
  | cons s p ih => rw [List.cons_append, write_cons_write_cons, ih, write_cons]

/-- A write below what was just written goes into it. -/
theorem write_write_append (data : Value) (p r : List String) (v w : Value) :
    (data.write p v).write (p ++ r) w = data.write p (v.write r w) := by
  induction p generalizing data with
  | nil => rfl
  | cons s p ih => rw [List.cons_append, write_cons_write_cons, ih, write_cons]

/-- Writes at places that are apart may be made in any order. -/
theorem write_comm (h : Apart p q) (data v w : Value) :
    (data.write p v).write q w = (data.write q w).write p v := by
  induction h generalizing data with
  | @here s t hst p q =>
    rw [write_cons (data.write _ _), write_cons (data.write _ _), entry_write_cons_of_ne hst.symm,
      entry_write_cons_of_ne hst, write_cons, write_cons, members, members,
      Members.insert_comm hst]
  | there s _ ih => rw [write_cons_write_cons, write_cons_write_cons, ih]

end Value

end JsonRules
