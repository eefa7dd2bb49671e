import JsonRules.Operator.Calculation
import JsonRules.Proofs.Value.Equality

/-!
# Loose equality and order

Loose equality coerces one operand after the other, and it comes to the same if both are coerced at
once (`looseEquals_of_not_null`). A value counts as the same number before and after
(`toNumberLoose?_coerced`). So loose equality is a question about the order wherever neither value is
absent and at most one is a container (`looseEquals_iff_compare`), and everything that is said of it
follows from the order of numbers and texts and from strict equality.

Main statements: both equalities are symmetric, the strict one implies the loose one, and without
floats it is identity (`equality_laws`). The order turns around with its operands, and it finds two
values equal if loose equality does, leaving out the pairs that only one of them coerces
(`order_laws`).
-/

namespace JsonRules

namespace Value

variable {a b : Value}

/-! ## Kinds -/

theorem kind_eq_string_iff : a.kind = .string ↔ ∃ s, a = string s := by
  cases a <;> simp [kind]

theorem kind_eq_bool_iff : a.kind = .bool ↔ ∃ x, a = bool x := by
  cases a <;> simp [kind]

theorem kind_eq_null_iff : a.kind = .null ↔ a = null := by
  cases a <;> simp [kind]

theorem isContainer_iff : a.isContainer = true ↔ a.kind = .array ∨ a.kind = .object := by
  cases a <;> simp [isContainer, kind]

/-! ## Order -/

/-- All but two texts are ordered as the numbers that they count as. -/
theorem compare_of_not_texts (h : ¬ (a.kind = .string ∧ b.kind = .string)) :
    a.compare b = a.toNumberLoose?.bind fun x => b.toNumberLoose?.bind fun y => x.compare y := by
  unfold Value.compare
  split
  · exact absurd ⟨rfl, rfl⟩ h
  · cases a.toNumberLoose? with
    | none => rfl
    | some x => cases b.toNumberLoose? <;> rfl

theorem compare_swap (a b : Value) : b.compare a = (a.compare b).map Ordering.swap := by
  by_cases h : a.kind = .string ∧ b.kind = .string
  · obtain ⟨s, rfl⟩ := kind_eq_string_iff.1 h.1
    obtain ⟨t, rfl⟩ := kind_eq_string_iff.1 h.2
    exact congrArg some Std.OrientedOrd.eq_swap
  · rw [compare_of_not_texts h, compare_of_not_texts fun h' => h h'.symm]
    cases a.toNumberLoose? with
    | none => cases b.toNumberLoose? <;> rfl
    | some x =>
      cases b.toNumberLoose? with
      | none => rfl
      | some y => exact Number.compare_swap x y

theorem compare_eq_some_eq_comm : a.compare b = some .eq ↔ b.compare a = some .eq := by
  rw [compare_swap a b, map_swap_eq_some_eq_iff]

theorem any_compare_swap (p : Ordering → Bool) (a b : Value) :
    (b.compare a).any p = (a.compare b).any fun o => p o.swap := by
  rw [compare_swap a b, Option.any_map]

/-! ## Coercion -/

/-- A truth value as an integer; other values stay as they are. -/
def boolAsInt : Value → Value
  | bool b => int (if b then 1 else 0)
  | v => v

/-- An array as its string form; other values stay as they are. -/
def arrayAsText : Value → Value
  | array items => string (stringForm (array items))
  | v => v

/-- Equality of two values of which neither is a container or absent: texts are equal by their
characters, and other values by the numbers they count as. -/
def scalarEquals : Value → Value → Bool
  | string s, string t => s == t
  | a, b => countEqual a b

theorem scalarEquals_iff : a.scalarEquals b = true ↔ a.compare b = some .eq := by
  by_cases h : a.kind = .string ∧ b.kind = .string
  · obtain ⟨s, rfl⟩ := kind_eq_string_iff.1 h.1
    obtain ⟨t, rfl⟩ := kind_eq_string_iff.1 h.2
    rw [scalarEquals, Value.compare, Option.some_inj, beq_iff_eq, Std.compare_eq_iff_eq]
  · rw [compare_of_not_texts h]
    unfold scalarEquals
    split
    · exact absurd ⟨rfl, rfl⟩ h
    · rw [countEqual]
      cases a.toNumberLoose? with
      | none => simp
      | some x =>
        cases b.toNumberLoose? with
        | none => simp
        | some y => exact Number.equals_iff

theorem toNumberLoose?_of_number? {x : Number} (h : a.number? = some x) :
    a.toNumberLoose? = some x := by
  cases a with
  | int n => exact h
  | float y => exact h
  | _ => exact absurd h.symm (Option.some_ne_none x)

/-- Coercion does not change the number that a value counts as. -/
theorem toNumberLoose?_coerced (v : Value) :
    v.boolAsInt.arrayAsText.toNumberLoose? = v.toNumberLoose? := by
  cases v <;> rfl

theorem kind_coerced_iff (v : Value) :
    v.boolAsInt.arrayAsText.kind = .string ↔ v.kind = .string ∨ v.kind = .array := by
  cases v <;> simp [boolAsInt, arrayAsText, kind]

/-- Coerced values are in the same order, unless an array becomes a text beside another text. -/
theorem compare_coerced (harrays : ¬ (a.kind = .array ∧ b.kind = .array))
    (harray : ¬ (a.kind = .array ∧ b.kind = .string))
    (hstring : ¬ (a.kind = .string ∧ b.kind = .array)) :
    a.boolAsInt.arrayAsText.compare b.boolAsInt.arrayAsText = a.compare b := by
  by_cases h : a.kind = .string ∧ b.kind = .string
  · obtain ⟨s, rfl⟩ := kind_eq_string_iff.1 h.1
    obtain ⟨t, rfl⟩ := kind_eq_string_iff.1 h.2
    rfl
  · have hcoerced : ¬ (a.boolAsInt.arrayAsText.kind = .string ∧
        b.boolAsInt.arrayAsText.kind = .string) := by
      rw [kind_coerced_iff, kind_coerced_iff]
      tauto
    rw [compare_of_not_texts h, compare_of_not_texts hcoerced, toNumberLoose?_coerced,
      toNumberLoose?_coerced]

theorem compare_coerced_of_object (h : a.kind = .object ∨ b.kind = .object) :
    a.boolAsInt.arrayAsText.compare b.boolAsInt.arrayAsText = none := by
  have hnone : ∀ {v : Value}, v.kind = .object → v.toNumberLoose? = none := by
    intro v hv
    cases v with
    | object members => rfl
    | _ => exact Kind.noConfusion hv
  rw [compare_of_not_texts]
  · rw [toNumberLoose?_coerced, toNumberLoose?_coerced]
    rcases h with h | h
    · rw [hnone h, Option.bind_none]
    · rw [hnone h]
      exact Option.bind_fun_none _
  · rw [kind_coerced_iff, kind_coerced_iff]
    rcases h with h | h <;> simp [h]

/-! ## Loose equality -/

theorem looseEquals_of_null (h : a.kind = .null ∨ b.kind = .null) :
    a.looseEquals b = true ↔ a.kind = .null ∧ b.kind = .null := by
  rcases h with h | h
  · rw [kind_eq_null_iff.1 h]
    cases b <;> simp [looseEquals, kind]
  · rw [kind_eq_null_iff.1 h]
    cases a <;> simp [looseEquals, kind]

theorem looseEquals_of_containers (h : a.isContainer = true ∧ b.isContainer = true) :
    a.looseEquals b = a.strictEquals b := by
  cases a with
  | array items =>
    cases b with
    | array items' => rw [looseEquals]
    | object members' => rw [looseEquals]
    | _ => exact Bool.noConfusion h.2
  | object members =>
    cases b with
    | array items' => rw [looseEquals]
    | object members' => rw [looseEquals]
    | _ => exact Bool.noConfusion h.2
  | _ => exact Bool.noConfusion h.1

/-- Values that are not absent may both be coerced at once, unless one of them is an object. -/
theorem looseEquals_of_not_null (ha : a.kind ≠ .null) (hb : b.kind ≠ .null)
    (hbool : ¬ (a.kind = .bool ∧ b.kind = .bool)) :
    a.looseEquals b =
      if a.isContainer && b.isContainer then a.strictEquals b
      else if a.kind = .object ∨ b.kind = .object then false
      else a.boolAsInt.arrayAsText.scalarEquals b.boolAsInt.arrayAsText := by
  cases a <;> cases b <;>
    simp_all [looseEquals, kind, isContainer, boolAsInt, arrayAsText, scalarEquals]

/-- Values of which neither is absent and not both are containers are equal if they are equal in the
order once they are coerced. -/
theorem looseEquals_iff_compare (ha : a.kind ≠ .null) (hb : b.kind ≠ .null)
    (h : ¬ (a.isContainer = true ∧ b.isContainer = true)) :
    a.looseEquals b = true ↔
      a.boolAsInt.arrayAsText.compare b.boolAsInt.arrayAsText = some .eq := by
  by_cases hbool : a.kind = .bool ∧ b.kind = .bool
  · obtain ⟨x, rfl⟩ := kind_eq_bool_iff.1 hbool.1
    obtain ⟨y, rfl⟩ := kind_eq_bool_iff.1 hbool.2
    rw [looseEquals]
    cases x <;> cases y <;> decide
  · have hneither : ¬ (a.isContainer && b.isContainer) = true := by rwa [Bool.and_eq_true]
    rw [looseEquals_of_not_null ha hb hbool, if_neg hneither]
    by_cases hobject : a.kind = .object ∨ b.kind = .object
    · rw [if_pos hobject, compare_coerced_of_object hobject]
      simp
    · rw [if_neg hobject, scalarEquals_iff]

/-! ## Laws -/

theorem looseEquals_comm (a b : Value) : a.looseEquals b = b.looseEquals a := by
  by_cases hnull : a.kind = .null ∨ b.kind = .null
  · rw [Bool.eq_iff_iff, looseEquals_of_null hnull, looseEquals_of_null hnull.symm, and_comm]
  · obtain ⟨ha, hb⟩ := not_or.1 hnull
    by_cases h : a.isContainer = true ∧ b.isContainer = true
    · rw [looseEquals_of_containers h, looseEquals_of_containers h.symm, strictEquals_comm]
    · rw [Bool.eq_iff_iff, looseEquals_iff_compare ha hb h,
        looseEquals_iff_compare hb ha fun h' => h h'.symm, compare_eq_some_eq_comm]

/-- Strictly equal values without parts are equal in the order. -/
theorem compare_of_strictEquals (hscalar : a.isContainer = false) (h : a.strictEquals b = true) :
    a.compare b = some .eq := by
  induction a using number_induction with
  | null =>
    obtain rfl := strictEquals_null_iff.1 h
    decide
  | bool x =>
    obtain rfl := strictEquals_bool_iff.1 h
    cases x <;> decide
  | number a x hx =>
    obtain ⟨y, hy, hxy⟩ := (strictEquals_number_iff hx).1 h
    rw [compare_of_not_texts, toNumberLoose?_of_number? hx, toNumberLoose?_of_number? hy]
    · exact Number.equals_iff.1 hxy
    · rw [kind_of_number? hx]
      simp
  | string s =>
    obtain rfl := strictEquals_string_iff.1 h
    exact congrArg some Std.compare_self
  | array items => exact Bool.noConfusion hscalar
  | object members => exact Bool.noConfusion hscalar

theorem looseEquals_of_strictEquals (h : a.strictEquals b = true) : a.looseEquals b = true := by
  have hkind := kind_eq_of_strictEquals h
  have hcontainer : a.isContainer = b.isContainer := by
    rw [Bool.eq_iff_iff, isContainer_iff, isContainer_iff, hkind]
  by_cases hnull : a.kind = .null
  · exact (looseEquals_of_null (.inl hnull)).2 ⟨hnull, hkind ▸ hnull⟩
  · by_cases ha : a.isContainer = true
    · rwa [looseEquals_of_containers ⟨ha, hcontainer ▸ ha⟩]
    · have hscalar := ha
      rw [isContainer_iff, not_or] at ha
      rw [looseEquals_iff_compare hnull (hkind ▸ hnull) fun h' => hscalar h'.1, compare_coerced]
      · exact compare_of_strictEquals (Bool.eq_false_iff.2 hscalar) h
      · exact fun h' => ha.1 h'.1
      · exact fun h' => ha.1 h'.1
      · exact fun h' => ha.1 (hkind.trans h'.2)

/-- Both equalities are symmetric, and strict equality implies loose equality. Without floats strict
equality is identity. -/
theorem equality_laws (a b : Value) :
    a.looseEquals b = b.looseEquals a ∧ a.strictEquals b = b.strictEquals a ∧
      (a.strictEquals b = true → a.looseEquals b = true) ∧
      ((∀ x, ¬ a.Contains (float x)) → (∀ x, ¬ b.Contains (float x)) →
        (a.strictEquals b = true ↔ a = b)) := by
  refine ⟨looseEquals_comm a b, strictEquals_comm a b, looseEquals_of_strictEquals, ?_⟩
  exact strictEquals_iff_eq

/-- A line of an order. -/
def orderLine : Value := array [int 2, object [("name", string "pen")]]

theorem equality_laws_orderLine :
    (∀ x, ¬ orderLine.Contains (float x)) ∧ orderLine.strictEquals orderLine = true ∧
      orderLine.looseEquals orderLine = true := by
  have hfloat : ∀ x, ¬ orderLine.Contains (float x) := by
    intro x hx
    rcases hx with _ | ⟨hv, hx⟩
    rcases List.mem_cons.1 hv with rfl | hv
    · cases hx
    · obtain rfl := List.mem_singleton.1 hv
      rcases hx with _ | _ | ⟨hm, hx⟩
      obtain rfl := List.mem_singleton.1 hm
      cases hx
  obtain ⟨-, -, hloose, hstrict⟩ := equality_laws orderLine orderLine
  have hself := (hstrict hfloat hfloat).2 rfl
  exact ⟨hfloat, hself, hloose hself⟩

/-! ## Relational operators -/

theorem chained_pair (allowed : Ordering → Bool) (a b : Value) :
    Calculation.chained allowed [a, b] = (a.compare b).any allowed := by
  rw [Calculation.chained, Calculation.chained, Bool.and_true]
  simp

/-- The order turns around with its operands, and so do the operators that ask for it. Loose equality
is equality in the order, unless one value alone is absent, both are containers, or an array stands
beside a text. -/
theorem order_laws (a b : Value) :
    b.compare a = (a.compare b).map Ordering.swap ∧
      Calculation.apply .greater [a, b] = Calculation.apply .less [b, a] ∧
      Calculation.apply .greaterEqual [a, b] = Calculation.apply .lessEqual [b, a] ∧
      ((a.kind = .null ↔ b.kind = .null) → ¬ (a.isContainer = true ∧ b.isContainer = true) →
        ¬ (a.kind = .array ∧ b.kind = .string) → ¬ (a.kind = .string ∧ b.kind = .array) →
        (a.looseEquals b = true ↔ a.compare b = some .eq)) := by
  refine ⟨compare_swap a b, ?_, ?_, ?_⟩
  · show bool (Calculation.chained Ordering.isGT [a, b]) =
      bool (Calculation.chained Ordering.isLT [b, a])
    rw [chained_pair, chained_pair, any_compare_swap Ordering.isLT a b]
    simp only [Ordering.isLT_swap]
  · show bool (Calculation.chained Ordering.isGE [a, b]) =
      bool (Calculation.chained Ordering.isLE [b, a])
    rw [chained_pair, chained_pair, any_compare_swap Ordering.isLE a b]
    simp only [Ordering.isLE_swap]
  · intro hnull hcontainers harray hstring
    by_cases ha : a.kind = .null
    · have hb := hnull.1 ha
      rw [looseEquals_of_null (.inl ha), kind_eq_null_iff.1 ha, kind_eq_null_iff.1 hb]
      decide
    · rw [looseEquals_iff_compare ha (hnull.not.1 ha) hcontainers, compare_coerced _ harray hstring]
      rintro ⟨ha, hb⟩
      exact hcontainers ⟨isContainer_iff.2 (.inl ha), isContainer_iff.2 (.inl hb)⟩

theorem order_laws_three :
    ((array [int 3]).kind = .null ↔ (float ⟨0x4008000000000000⟩).kind = .null) ∧
      ¬ ((array [int 3]).isContainer = true ∧ (float ⟨0x4008000000000000⟩).isContainer = true) ∧
      ¬ ((array [int 3]).kind = .array ∧ (float ⟨0x4008000000000000⟩).kind = .string) ∧
      ¬ ((array [int 3]).kind = .string ∧ (float ⟨0x4008000000000000⟩).kind = .array) ∧
      (array [int 3]).looseEquals (float ⟨0x4008000000000000⟩) = true := by
  obtain ⟨-, -, -, h⟩ := order_laws (array [int 3]) (float ⟨0x4008000000000000⟩)
  refine ⟨by decide, by decide, by decide, by decide, ?_⟩
  exact (h (by decide) (by decide) (by decide) (by decide)).2 (by decide +kernel)

end Value

end JsonRules
