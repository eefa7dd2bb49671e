import JsonRules.Proofs.Rule.Application

/-!
# Iterating operators

Each iterating operator goes through the items of a list in a loop of its own, and some of them stop
early. What the loops come to, what they log aside, are the functions on lists that their names
promise: `map`, `filter`, `any` and `all`. So the operators agree with one another on the same list
and the same body (`Engine.yields_of_iteration`), since a body has one value for each item no matter
which operator evaluates it, and no matter how deeply it is nested.
-/

namespace JsonRules

/-! ## Loops -/

section Loops

variable (test : Value → Logged Value) (items : List Value)

theorem Logged.value_listMapM {α β : Type} (f : α → Logged β) (xs : List α) :
    (xs.mapM f).value = xs.map fun a => (f a).value := by
  induction xs with
  | nil => rfl
  | cons a rest ih =>
    rw [List.mapM_cons, Logged.value_bind, Logged.value_bind, ih]
    rfl

theorem Control.value_keepTruthy :
    (keepTruthy test items).value = items.filter fun item => (test item).value.isTruthy := by
  induction items with
  | nil => rfl
  | cons item rest ih =>
    rw [keepTruthy, Logged.value_bind, Logged.value_bind, ih, Logged.value_pure, List.filter_cons]

theorem Control.value_anyTruthy :
    (anyTruthy test items).value = items.any fun item => (test item).value.isTruthy := by
  induction items with
  | nil => rfl
  | cons item rest ih =>
    rw [anyTruthy, Logged.value_bind, List.any_cons, ← ih]
    cases (test item).value.isTruthy <;> rfl

theorem Control.value_allTruthy :
    (allTruthy test items).value = items.all fun item => (test item).value.isTruthy := by
  induction items with
  | nil => rfl
  | cons item rest ih =>
    rw [allTruthy, Logged.value_bind, List.all_cons, ← ih]
    cases (test item).value.isTruthy <;> rfl

end Loops

/-- An array with the items that pass a test counts as true if some item passes it. -/
theorem Value.isTruthy_filter (p : Value → Bool) (items : List Value) :
    (array (items.filter p)).isTruthy = items.any p := by
  rw [Bool.eq_iff_iff]
  simp [isTruthy]

/-! ## Terms -/

namespace Term

/-- Whether the value of a term for data counts as true. -/
def holds (t : Term) (data : Value) : Bool := (t.value data).isTruthy

section Values

variable (list body : Term) (data : Value)

theorem value_map : (call (.control .map) [list, body]).value data =
    .array ((list.value data).items.map body.value) :=
  congrArg Value.array (Logged.value_listMapM body.meaning _)

theorem value_filter : (call (.control .filter) [list, body]).value data =
    .array ((list.value data).items.filter body.holds) :=
  congrArg Value.array (Control.value_keepTruthy body.meaning _)

theorem value_all : (call (.control .all) [list, body]).value data =
    .bool ((list.value data).items.all body.holds && !(list.value data).items.isEmpty) :=
  congrArg (fun b => Value.bool (b && _)) (Control.value_allTruthy body.meaning _)

theorem value_any : (call (.control .any) [list, body]).value data =
    .bool ((list.value data).items.any body.holds) :=
  congrArg Value.bool (Control.value_anyTruthy body.meaning _)

theorem value_notAny : (call (.control .notAny) [list, body]).value data =
    .bool !(list.value data).items.any body.holds :=
  congrArg (fun b => Value.bool !b) (Control.value_anyTruthy body.meaning _)

end Values

theorem value_truth (t : Term) (data : Value) :
    (call (.eager (.calculation .truth)) [t]).value data = .bool (t.holds data) := rfl

theorem value_not (t : Term) (data : Value) :
    (call (.eager (.calculation .not)) [t]).value data = .bool !t.holds data := rfl

/-! ### Operators on the same list -/

section Agreement

variable (list body : Term) (data : Value)

/-- Some item passes if filtering leaves any. -/
theorem value_truth_filter :
    (call (.eager (.calculation .truth)) [call (.control .filter) [list, body]]).value data =
      (call (.control .any) [list, body]).value data := by
  rw [value_truth, holds, value_filter, Value.isTruthy_filter, value_any]

/-- No item passes if filtering leaves none. -/
theorem value_not_filter :
    (call (.eager (.calculation .not)) [call (.control .filter) [list, body]]).value data =
      (call (.control .notAny) [list, body]).value data := by
  rw [value_not, holds, value_filter, Value.isTruthy_filter, value_notAny]

/-- What has been filtered is left as it is when it is filtered again. -/
theorem value_filter_filter :
    (call (.control .filter) [call (.control .filter) [list, body], body]).value data =
      (call (.control .filter) [list, body]).value data := by
  rw [value_filter, value_filter, Value.items, List.filter_filter]
  simp only [Bool.and_self]

/-- All items pass if filtering leaves the list as it is, which must be a list with an item. -/
theorem value_all_eq_true_iff :
    (call (.control .all) [list, body]).value data = .bool true ↔
      ∃ items, list.value data = .array items ∧ items ≠ [] ∧
        (call (.control .filter) [list, body]).value data = .array items := by
  rw [value_all, value_filter, Value.bool.injEq, Bool.and_eq_true, Bool.not_eq_true',
    List.isEmpty_eq_false_iff, List.all_eq_true, ← List.filter_eq_self]
  constructor
  · rintro ⟨hkept, hne⟩
    cases hlist : list.value data with
    | array items =>
      rw [hlist] at hkept hne
      exact ⟨items, rfl, hne, congrArg Value.array hkept⟩
    | _ => exact absurd (by rw [hlist]; rfl) hne
  · rintro ⟨items, hlist, hne, hkept⟩
    rw [hlist] at hkept ⊢
    exact ⟨Value.array.inj hkept, hne⟩

end Agreement

end Term

/-! ## Rules -/

/-- The rule that applies an iterating operator to a list and a body. -/
def Control.over (c : Control) (list body : Value) : Value :=
  .singleton c.name (.array [list, body])

/-- The rule that applies a calculation to a single rule. -/
def Calculation.over (c : Calculation) (rule : Value) : Value := .singleton c.name (.array [rule])

namespace Term

variable {limit levels levels' : Nat} {list body rule : Value} {t s : Term}

theorem ofRuleWithin_control (h : levels < levels') (ht : ofRuleWithin limit levels list = .ok t)
    (hs : ofRuleWithin limit levels body = .ok s) (c : Control) :
    ofRuleWithin limit levels' (c.over list body) = .ok (call (.control c) [t, s]) := by
  obtain ⟨levels', rfl⟩ := Nat.exists_eq_add_one.2 (Nat.zero_lt_of_lt h)
  have hle : levels ≤ levels' := Nat.le_of_lt_succ h
  refine (ofRuleWithin_call_iff (.control c)).2 ⟨[t, s], ?_, rfl⟩
  exact .cons (ofRuleWithin_eq_ok_of_le limit hle ht)
    (.cons (ofRuleWithin_eq_ok_of_le limit hle hs) .nil)

theorem ofRuleWithin_calculation (h : levels < levels')
    (ht : ofRuleWithin limit levels rule = .ok t) (c : Calculation) :
    ofRuleWithin limit levels' (c.over rule) = .ok (call (.eager (.calculation c)) [t]) := by
  obtain ⟨levels', rfl⟩ := Nat.exists_eq_add_one.2 (Nat.zero_lt_of_lt h)
  have hle : levels ≤ levels' := Nat.le_of_lt_succ h
  refine (ofRuleWithin_call_iff (.eager (.calculation c))).2 ⟨[t], ?_, rfl⟩
  exact .cons (ofRuleWithin_eq_ok_of_le limit hle ht) .nil

/-- An iterating operator that has a term has levels left for its list and its body. -/
theorem exists_of_ofRuleWithin_control {c : Control} {u : Term}
    (h : ofRuleWithin limit levels (c.over list body) = .ok u) :
    ∃ inner t s, levels = inner + 1 ∧ ofRuleWithin limit inner list = .ok t ∧
      ofRuleWithin limit inner body = .ok s := by
  cases levels with
  | zero => exact absurd h (by simp [ofRuleWithin])
  | succ inner =>
    obtain ⟨terms, hterms, -⟩ := (ofRuleWithin_call_iff (.control c)).1 h
    cases hterms with
    | cons ht hrest =>
      cases hrest with
      | cons hs _ => exact ⟨inner, _, _, rfl, ht, hs⟩

end Term

namespace Engine

variable {engine : Engine} {rule list body data : Value}

section Terms

variable {levels : Nat} {t s : Term}

theorem yields_control (h : levels < engine.maxDepth)
    (ht : Term.ofRuleWithin engine.maxDepth levels list = .ok t)
    (hs : Term.ofRuleWithin engine.maxDepth levels body = .ok s) (c : Control) (data : Value) :
    engine.Yields (c.over list body) data ((Term.call (.control c) [t, s]).value data) :=
  yields_of_ofRuleWithin le_rfl (Term.ofRuleWithin_control h ht hs c) data

theorem yields_calculation (h : levels < engine.maxDepth)
    (ht : Term.ofRuleWithin engine.maxDepth levels rule = .ok t) (c : Calculation) (data : Value) :
    engine.Yields (c.over rule) data ((Term.call (.eager (.calculation c)) [t]).value data) :=
  yields_of_ofRuleWithin le_rfl (Term.ofRuleWithin_calculation h ht c) data

/-- A list that can be filtered twice is nested two levels less deeply than the limit. -/
theorem exists_of_compile_filter_filter
    (h : ∃ c, engine.compile (Control.filter.over (Control.filter.over list body) body) = .ok c) :
    ∃ levels t s, levels + 1 < engine.maxDepth ∧
      Term.ofRuleWithin engine.maxDepth levels list = .ok t ∧
      Term.ofRuleWithin engine.maxDepth levels body = .ok s := by
  obtain ⟨c, hc⟩ := h
  obtain ⟨u, hu, -⟩ := compile_eq_ok_iff.1 hc
  obtain ⟨outer, filtered, s', hlimit, hfiltered, -⟩ := Term.exists_of_ofRuleWithin_control hu
  obtain ⟨inner, t, s, rfl, ht, hs⟩ := Term.exists_of_ofRuleWithin_control hfiltered
  exact ⟨inner, t, s, by omega, ht, hs⟩

end Terms

/-- If there are enough levels for a list to be filtered twice, all iterating operators agree on the
list and the body. What the list has of items that the body is true of decides what `some` and
`none` say, and `all` says whether these are all items, of which there must be one. To filter the
list again changes nothing, and `map` has the value of the body for every item. -/
theorem yields_of_iteration
    (h : ∃ c, engine.compile (Control.filter.over (Control.filter.over list body) body) = .ok c)
    (data : Value) :
    ∃ (v : Value) (test : Value → Value),
      engine.Yields list data v ∧ (∀ item, engine.Yields body item (test item)) ∧
      (∃ b, engine.Yields (Control.any.over list body) data b ∧
        engine.Yields (Calculation.truth.over (Control.filter.over list body)) data b) ∧
      (∃ b, engine.Yields (Control.notAny.over list body) data b ∧
        engine.Yields (Calculation.not.over (Control.filter.over list body)) data b) ∧
      (∃ b, engine.Yields (Control.all.over list body) data (.bool b) ∧
        (b = true ↔ ∃ items, v = .array items ∧ items ≠ [] ∧
          engine.Yields (Control.filter.over list body) data (.array items))) ∧
      (∃ kept, engine.Yields (Control.filter.over list body) data kept ∧
        engine.Yields (Control.filter.over (Control.filter.over list body) body) data kept) ∧
      engine.Yields (Control.map.over list body) data (.array (v.items.map test)) := by
  obtain ⟨levels, t, s, hdepth, ht, hs⟩ := exists_of_compile_filter_filter h
  have hover : ∀ c : Control, engine.Yields (c.over list body) data
      ((Term.call (.control c) [t, s]).value data) := by
    intro c
    exact yields_control (by omega) ht hs c data
  -- Around the filtered list there is one level less.
  have hfilter : Term.ofRuleWithin engine.maxDepth (levels + 1) (Control.filter.over list body) =
      .ok (.call (.control .filter) [t, s]) :=
    Term.ofRuleWithin_control (Nat.lt_succ_self levels) ht hs .filter
  have hbody : Term.ofRuleWithin engine.maxDepth (levels + 1) body = .ok s :=
    Term.ofRuleWithin_eq_ok_of_le engine.maxDepth (Nat.le_succ levels) hs
  refine ⟨t.value data, s.value, yields_of_ofRuleWithin (by omega) ht data,
    yields_of_ofRuleWithin (by omega) hs, ⟨_, hover .any, ?_⟩, ⟨_, hover .notAny, ?_⟩,
    ⟨_, Term.value_all t s data ▸ hover .all, ?_⟩, ⟨_, hover .filter, ?_⟩, ?_⟩
  · rw [← Term.value_truth_filter]
    exact yields_calculation hdepth hfilter .truth data
  · rw [← Term.value_not_filter]
    exact yields_calculation hdepth hfilter .not data
  · have hkept : ∀ items, (Term.call (.control .filter) [t, s]).value data = .array items ↔
        engine.Yields (Control.filter.over list body) data (.array items) := by
      intro items
      constructor
      · intro heq
        exact heq ▸ hover .filter
      · intro hyields
        exact (hover .filter).unique hyields
    rw [← Value.bool.injEq, ← Term.value_all, Term.value_all_eq_true_iff]
    simp only [hkept]
  · rw [← Term.value_filter_filter]
    exact yields_control hdepth hfilter hbody .filter data
  · rw [← Term.value_map]
    exact hover .map

/-- The list of all readings. -/
def readings : Value := .singleton "var" (.string "readings")

/-- Whether a reading is above the limit, which is logged. -/
def isHigh : Value :=
  .singleton ">" (.array [.singleton "var" (.string ""), .singleton "log" (.int 3)])

theorem yields_of_iteration_readings :
    (∃ c, ({} : Engine).compile (Control.filter.over (Control.filter.over readings isHigh) isHigh) =
        .ok c) ∧
      ({} : Engine).apply (Calculation.truth.over (Control.filter.over readings isHigh))
        (.singleton "readings" (.array [.int 2, .int 4, .int 5])) = .ok (.bool true) := by
  have hcompile : ∃ c, ({} : Engine).compile
      (Control.filter.over (Control.filter.over readings isHigh) isHigh) = .ok c := ⟨_, rfl⟩
  refine ⟨hcompile, ?_⟩
  obtain ⟨_, _, _, _, ⟨b, hany, htruth⟩, _⟩ := yields_of_iteration hcompile
    (.singleton "readings" (.array [.int 2, .int 4, .int 5]))
  exact htruth.1.trans (hany.1.symm.trans rfl)

end Engine

end JsonRules
