import JsonRules.Value.Basic

/-!
# Structure of values

Values are proved things about by induction (`Value.induction`), with a hypothesis for each item of
an array and for the value of each member of an object. The predicates and measures that recur into
items and members by functions of their own say the same of each of them.

A property of values is `Hereditary` if it stays when rules are taken apart, and `Compositional` if
it also stays when they are calculated with and put together.
-/

namespace JsonRules

namespace Value

/-- Induction on values. The items of an array and the members of an object are given together. -/
@[elab_as_elim, induction_eliminator]
theorem induction {motive : Value → Prop} (null : motive null) (bool : ∀ b, motive (bool b))
    (int : ∀ n, motive (int n)) (float : ∀ x, motive (float x)) (string : ∀ s, motive (string s))
    (array : ∀ items, (∀ v ∈ items, motive v) → motive (array items))
    (object : ∀ members, (∀ m ∈ members, motive m.2) → motive (object members)) (v : Value) :
    motive v :=
  @Value.rec motive (fun items => ∀ v ∈ items, motive v)
    (fun members => ∀ m ∈ members, motive m.2) (fun m => motive m.2)
    null bool int float string array object
    (fun _ h => absurd h List.not_mem_nil)
    (fun _ _ ihHead ihTail v h => (List.mem_cons.1 h).elim (fun e => e ▸ ihHead) (ihTail v))
    (fun _ h => absurd h List.not_mem_nil)
    (fun _ _ ihHead ihTail m h => (List.mem_cons.1 h).elim (fun e => e ▸ ihHead) (ihTail m))
    (fun _ _ ih => ih) v

theorem allWellFormed_iff {items : List Value} :
    AllWellFormed items ↔ ∀ v ∈ items, v.WellFormed := by
  induction items with
  | nil => simp [AllWellFormed]
  | cons v rest ih => rw [AllWellFormed, ih, List.forall_mem_cons]

theorem membersWellFormed_iff {members : List (String × Value)} :
    MembersWellFormed members ↔ ∀ m ∈ members, m.2.WellFormed := by
  induction members with
  | nil => simp [MembersWellFormed]
  | cons m rest ih => rw [MembersWellFormed, ih, List.forall_mem_cons]

/-- A property that the items of an array have if the array has it, and the value of the only member
of an object if the object has it. What is left out is null and has it. -/
structure Hereditary (P : Value → Prop) : Prop where
  null : P null
  item {items : List Value} (h : P (array items)) : ∀ v ∈ items, P v
  member {key : String} {v : Value} (h : P (singleton key v)) : P v

/-- A hereditary property that all results of calculations without parts have, and that arrays and
objects with a single member have if their parts have it. -/
structure Compositional (P : Value → Prop) : Prop extends Hereditary P where
  bool (b : Bool) : P (bool b)
  int (n : Int64) : P (int n)
  float {x : Binary64} (h : x.isFinite = true) : P (float x)
  string (s : String) : P (string s)
  array {items : List Value} (h : ∀ v ∈ items, P v) : P (array items)
  singleton {key : String} {v : Value} (h : P v) : P (singleton key v)

theorem compositional_wellFormed : Compositional WellFormed where
  null := trivial
  item := allWellFormed_iff.1
  member h := h.2.1
  bool _ := trivial
  int _ := trivial
  float _ := trivial
  string _ := trivial
  array := allWellFormed_iff.2
  singleton h := ⟨List.pairwise_singleton _ _, h, trivial⟩

theorem Compositional.ofFinite {P : Value → Prop} (hP : Compositional P) (x : Binary64) :
    P (ofFinite x) := by
  unfold Value.ofFinite
  split
  · rename_i h
    exact hP.float h
  · exact hP.null

theorem allNesting_le_iff {items : List Value} {n : Nat} :
    allNesting items ≤ n ↔ ∀ v ∈ items, v.nesting ≤ n := by
  induction items with
  | nil => simp [allNesting]
  | cons v rest ih => rw [allNesting, Nat.max_le, ih, List.forall_mem_cons]

theorem membersNesting_le_iff {members : List (String × Value)} {n : Nat} :
    membersNesting members ≤ n ↔ ∀ m ∈ members, m.2.nesting ≤ n := by
  induction members with
  | nil => simp [membersNesting]
  | cons m rest ih => rw [membersNesting, Nat.max_le, ih, List.forall_mem_cons]

theorem hereditary_nesting_le (n : Nat) : Hereditary fun v => v.nesting ≤ n where
  null := Nat.zero_le n
  item h := allNesting_le_iff.1 (Nat.le_of_succ_le h)
  member h := Nat.le_trans (Nat.le_max_left _ _) (Nat.le_of_succ_le h)

end Value

namespace Members

variable {α : Type}

theorem mem_of_mem_insert {key : String} {value : α} {members : List (String × α)} {m : String × α}
    (h : m ∈ insert key value members) : m = (key, value) ∨ m ∈ members := by
  induction members with
  | nil => exact .inl (List.mem_singleton.1 h)
  | cons m' rest ih =>
    rw [insert] at h
    split at h
    · exact (List.mem_cons.1 h).imp id (List.mem_cons_of_mem _)
    · split at h
      · exact List.mem_cons.1 h
      · rcases List.mem_cons.1 h with rfl | h
        · exact .inr List.mem_cons_self
        · exact (ih h).imp id (List.mem_cons_of_mem _)

/-- The members of an object are among the entries that they were taken from. -/
theorem mem_of_mem_ofList {entries : List (String × α)} {m : String × α} (h : m ∈ ofList entries) :
    m ∈ entries := by
  have hfoldl : ∀ members : List (String × α),
      m ∈ entries.foldl (fun members entry => insert entry.1 entry.2 members) members →
      m ∈ members ∨ m ∈ entries := by
    clear h
    induction entries with
    | nil => exact fun _ h => .inl h
    | cons entry rest ih =>
      intro members h
      rcases ih _ h with h | h
      · exact (mem_of_mem_insert h).elim (fun e => .inr (e ▸ List.mem_cons_self)) .inl
      · exact .inr (List.mem_cons_of_mem _ h)
  exact (hfoldl [] h).resolve_left List.not_mem_nil

/-- A key behind all others is inserted at the end. -/
theorem insert_eq_append {key : String} {members : List (String × α)}
    (h : ∀ m ∈ members, m.1 < key) (value : α) :
    insert key value members = members ++ [(key, value)] := by
  induction members with
  | nil => rfl
  | cons m rest ih =>
    have hlt : m.1 < key := h m List.mem_cons_self
    have hne : key ≠ m.1 := fun e => String.lt_irrefl _ (e ▸ hlt)
    rw [insert, if_neg hne, if_neg (String.lt_asymm hlt),
      ih fun m' hm' => h m' (List.mem_cons_of_mem _ hm'), List.cons_append]

/-- Members that are in order are what they are the entries of. -/
theorem ofList_eq_self {members : List (String × α)} (h : Sorted members) :
    ofList members = members := by
  have hfoldl : ∀ first rest : List (String × α), Sorted (first ++ rest) →
      rest.foldl (fun members entry => insert entry.1 entry.2 members) first = first ++ rest := by
    intro first rest
    induction rest generalizing first with
    | nil => exact fun _ => (List.append_nil first).symm
    | cons m rest ih =>
      intro hsorted
      have hlast : ∀ m' ∈ first, m'.1 < m.1 := fun m' hm' =>
        (List.pairwise_append.1 hsorted).2.2 m' hm' m List.mem_cons_self
      rw [List.append_cons] at hsorted ⊢
      rw [List.foldl_cons, insert_eq_append hlast, ih _ hsorted]
  exact hfoldl [] members h

end Members

end JsonRules
