/-!
# Members of an object

The members of an object are a list of keys with their values in strictly increasing order of keys;
keys are ordered as texts, character by character. `insert` and `ofList` keep that order, with the
last of several values for one key winning, and `find?` looks a key up. The lists are generic in the
values so that every tree of objects can use them.

Main statements: `find?_insert` says what a key is bound to after an insertion,
`insert_insert_self` and `insert_comm` what is left of two insertions, and `sorted_insert` that the
order is kept.
-/

namespace JsonRules

namespace Members

variable {α : Type}

/-- The value of a key. -/
def find? (key : String) : List (String × α) → Option α
  | [] => none
  | (k, v) :: rest => if key = k then some v else find? key rest

/-- The members with a value set for a key, which takes the place of the value it had. -/
def insert (key : String) (value : α) : List (String × α) → List (String × α)
  | [] => [(key, value)]
  | (k, v) :: rest =>
    if key = k then (key, value) :: rest
    else if key < k then (key, value) :: (k, v) :: rest
    else (k, v) :: insert key value rest

/-- The members with the given keys and values; of two values for one key the later is taken. -/
def ofList (entries : List (String × α)) : List (String × α) :=
  entries.foldl (fun members entry => insert entry.1 entry.2 members) []

/-- Members are in order if their keys increase strictly. -/
def Sorted (members : List (String × α)) : Prop :=
  members.Pairwise fun a b => a.1 < b.1

theorem find?_insert (key key' : String) (value : α) (members : List (String × α)) :
    find? key' (insert key value members) =
      if key' = key then some value else find? key' members := by
  induction members with
  | nil => simp [insert, find?]
  | cons member rest ih =>
    obtain ⟨k, v⟩ := member
    simp only [insert]
    split
    · rename_i h
      by_cases hk : key' = key <;> simp_all [find?]
    · split
      · simp [find?]
      · by_cases hk : key' = k
        · rename_i h _
          simp [find?, hk]
          exact fun e => absurd e.symm h
        · simp [find?, hk, ih]

theorem mem_of_find? {key : String} {value : α} {members : List (String × α)}
    (h : find? key members = some value) : (key, value) ∈ members := by
  induction members with
  | nil => exact absurd h.symm (Option.some_ne_none value)
  | cons member rest ih =>
    obtain ⟨k, v⟩ := member
    rw [find?] at h
    split at h
    · rename_i e
      rw [e, Option.some.inj h]
      exact List.mem_cons_self
    · exact List.mem_cons_of_mem _ (ih h)

/-- Of two values set for one key only the later is left. -/
theorem insert_insert_self (key : String) (value value' : α) (members : List (String × α)) :
    insert key value' (insert key value members) = insert key value' members := by
  induction members with
  | nil => simp [insert]
  | cons member rest ih =>
    obtain ⟨k, v⟩ := member
    by_cases hk : key = k
    · simp [insert, hk]
    · by_cases hlt : key < k
      · simp [insert, hk, hlt]
      · simp [insert, hk, hlt, ih]

theorem insert_comm_of_lt {key key' : String} (h : key < key') (value value' : α)
    (members : List (String × α)) :
    insert key value (insert key' value' members) =
      insert key' value' (insert key value members) := by
  have hne : key ≠ key' := fun e => String.lt_irrefl key' (e ▸ h)
  have hnlt : ¬ key' < key := String.lt_asymm h
  induction members with
  | nil => simp [insert, h, hne, hne.symm, hnlt]
  | cons member rest ih =>
    obtain ⟨k, v⟩ := member
    -- The smaller key stops at or before the place of the greater one.
    rcases Std.lt_trichotomy key k with hlt | rfl | hlt
    · have hk : key ≠ k := fun e => String.lt_irrefl k (e ▸ hlt)
      by_cases hk' : key' = k
      · subst hk'
        simp [insert, hne, hne.symm, hnlt, hlt]
      · by_cases hlt' : key' < k
        · simp [insert, h, hk, hk', hne, hne.symm, hnlt, hlt, hlt']
        · simp [insert, hk, hk', hne.symm, hnlt, hlt, hlt']
    · simp [insert, hne.symm, hnlt]
    · have hk : key ≠ k := fun e => String.lt_irrefl k (e ▸ hlt)
      have hlt' : k < key' := String.lt_trans hlt h
      have hk' : key' ≠ k := fun e => String.lt_irrefl k (e ▸ hlt')
      simp [insert, hk, hk', String.lt_asymm hlt, String.lt_asymm hlt', ih]

/-- Values for different keys may be set in any order. -/
theorem insert_comm {key key' : String} (h : key ≠ key') (value value' : α)
    (members : List (String × α)) :
    insert key value (insert key' value' members) =
      insert key' value' (insert key value members) := by
  rcases Std.lt_trichotomy key key' with hlt | e | hlt
  · exact insert_comm_of_lt hlt value value' members
  · exact absurd e h
  · exact (insert_comm_of_lt hlt value' value members).symm

theorem mem_keys_insert {key k : String} {value : α} {members : List (String × α)}
    (h : k ∈ (insert key value members).map Prod.fst) : k = key ∨ k ∈ members.map Prod.fst := by
  induction members with
  | nil => simpa [insert] using h
  | cons member rest ih =>
    obtain ⟨k', v⟩ := member
    simp only [insert] at h
    split at h
    · simp_all
    · split at h
      · simpa using h
      · simp only [List.map_cons, List.mem_cons] at h ⊢
        rcases h with h | h
        · exact .inr (.inl h)
        · exact (ih h).elim .inl (.inr ∘ .inr)

/-- Insertion keeps the members in order. -/
theorem sorted_insert (key : String) (value : α) {members : List (String × α)}
    (h : Sorted members) : Sorted (insert key value members) := by
  induction members with
  | nil => simp [insert, Sorted]
  | cons member rest ih =>
    obtain ⟨k, v⟩ := member
    obtain ⟨hk, hrest⟩ := List.pairwise_cons.1 h
    simp only [insert]
    split
    · rename_i e
      exact List.pairwise_cons.2 ⟨fun m hm => e ▸ hk m hm, hrest⟩
    · split
      · rename_i hlt
        refine List.pairwise_cons.2 ⟨fun m hm => ?_, h⟩
        rcases List.mem_cons.1 hm with rfl | hm
        · exact hlt
        · exact String.lt_trans hlt (hk m hm)
      · rename_i hne hnlt
        refine List.pairwise_cons.2 ⟨fun m hm => ?_, ih hrest⟩
        have hmem : m.1 ∈ (insert key value rest).map Prod.fst := List.mem_map_of_mem hm
        rcases mem_keys_insert hmem with e | hin
        · have hlt : k < key := Decidable.byContradiction fun hn =>
            hne (String.le_antisymm (String.not_lt.1 hn) (String.not_lt.1 hnlt))
          exact e ▸ hlt
        · obtain ⟨m', hm', e⟩ := List.mem_map.1 hin
          exact e ▸ hk m' hm'

/-- Whatever the entries, their members are in order. -/
theorem sorted_ofList (entries : List (String × α)) : Sorted (ofList entries) := by
  suffices h : ∀ members : List (String × α), Sorted members →
      Sorted (entries.foldl (fun members entry => insert entry.1 entry.2 members) members) from
    h [] List.Pairwise.nil
  induction entries with
  | nil => exact fun _ h => h
  | cons entry rest ih => exact fun _ h => ih _ (sorted_insert _ _ h)

end Members

end JsonRules
