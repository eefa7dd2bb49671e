import JsonRules.Proofs.Term.Rule

/-!
# Folded terms

A term is `Folded` if nothing in it is known before there are data: no call has a known result, and
no computed key is a literal. Main statements:

* folding gives a folded term and leaves a folded term as it is (`folded_fold`, `Folded.fold_eq`);
* folding never makes a term deeper (`depth_fold_le`);
* a folded term is expressible if the term was (`Expressible.fold`), because no calculation results
  in an object.
-/

namespace JsonRules

/-! ## Results of calculations -/

namespace Calculation

/-- A value that is neither an array nor an object. -/
def IsScalar (v : Value) : Prop := v.asArray? = none ∧ v.asObject? = none

theorem isScalar_numberOrNull (n : Option Number) : IsScalar (numberOrNull n) := by
  match n with
  | none => exact ⟨rfl, rfl⟩
  | some (.int i) => exact ⟨rfl, rfl⟩
  | some (.float x) =>
    rw [numberOrNull, Option.map_some, Option.getD_some, Number.toValue, Value.ofFinite]
    split <;> exact ⟨rfl, rfl⟩

/-- Only merging gives a list, and nothing gives an object. -/
theorem compute_isScalar_or_merge (c : Calculation) (args : List Value) :
    IsScalar (c.compute args) ∨ c.compute args = .array (args.flatMap mergeItems) := by
  cases c with
  | merge => exact .inr rfl
  | add => exact .inl (isScalar_numberOrNull _)
  | subtract => exact .inl (isScalar_numberOrNull _)
  | multiply => exact .inl (isScalar_numberOrNull _)
  | divide => exact .inl (isScalar_numberOrNull _)
  | remainder => exact .inl (isScalar_numberOrNull _)
  | min => exact .inl (isScalar_numberOrNull _)
  | max => exact .inl (isScalar_numberOrNull _)
  | _ => exact .inl ⟨rfl, rfl⟩

/-- The result of a calculation stands for itself in the place of a rule. -/
theorem ofValue_apply (c : Calculation) (args : List Value) :
    Form.ofValue (c.apply args) = .ok .literal := by
  rcases compute_isScalar_or_merge c (c.arity.trim args) with ⟨-, h⟩ | h
  · rw [apply]
    cases hv : c.compute (c.arity.trim args) with
    | object members =>
      rw [hv] at h
      exact absurd h (Option.some_ne_none members)
    | _ => rfl
  · rw [apply, h]
    rfl

end Calculation

namespace Term

/-- Nothing in the term is known before there are data. -/
inductive Folded : Term → Prop where
  | literal {value : Value} : Folded (literal value)
  | reference {path : Path} {default? : Option Term} (hdefault : ∀ t ∈ default?, Folded t) :
      Folded (reference path default?)
  | lookup {key : Term} {default? : Option Term} (h : key.literal? = none) (hkey : Folded key)
      (hdefault : ∀ t ∈ default?, Folded t) : Folded (lookup key default?)
  | call {op : Operator} {args : List Term} (h : constantCall? op args = none)
      (hargs : ∀ t ∈ args, Folded t) : Folded (call op args)

/-! ## Folding gives a folded term -/

theorem Folded.mkCall (op : Operator) {args : List Term} (h : ∀ t ∈ args, Folded t) :
    Folded (mkCall op args) := by
  rcases mkCall_cases op args with ⟨hnone, e⟩ | ⟨c, values, -, -, e⟩
  · exact e ▸ .call hnone h
  · exact e ▸ .literal

theorem Folded.mkLookup {key : Term} {default? : Option Term} (hkey : Folded key)
    (h : ∀ t ∈ default?, Folded t) : Folded (mkLookup key default?) := by
  rcases mkLookup_cases key default? with ⟨hnone, e⟩ | ⟨value, -, e⟩
  · exact e ▸ .lookup hnone hkey h
  · rw [e]
    rcases ofKey_cases value default? with ⟨text, -, e⟩ | ⟨-, e⟩
    · exact e ▸ .reference h
    · cases default? with
      | none => exact e ▸ .literal
      | some t => exact e ▸ h t rfl

theorem folded_fold (t : Term) : t.fold.Folded := by
  induction t with
  | literal value => exact .literal
  | reference path default? ih =>
    rw [fold, optionFold_eq_map]
    exact .reference (Option.forall_mem_map.2 ih)
  | lookup key default? ihKey ih =>
    rw [fold, optionFold_eq_map]
    exact .mkLookup ihKey (Option.forall_mem_map.2 ih)
  | call op args ih =>
    rw [fold, allFold_eq_map]
    exact .mkCall op (List.forall_mem_map.2 ih)

/-- A folded term is left as it is. -/
theorem Folded.fold_eq {t : Term} (h : t.Folded) : t.fold = t := by
  have hmap : ∀ {default? : Option Term}, (∀ t ∈ default?, t.fold = t) →
      default?.map fold = default? := by
    intro default? ih
    rw [Option.map_congr ih, Option.map_id']
  induction t with
  | literal value => rfl
  | reference path default? ih =>
    cases h with
    | reference hdefault =>
      rw [fold, optionFold_eq_map, hmap fun t ht => ih t ht (hdefault t ht)]
  | lookup key default? ihKey ih =>
    cases h with
    | lookup hnone hkey hdefault =>
      rw [fold, optionFold_eq_map, hmap fun t ht => ih t ht (hdefault t ht), ihKey hkey]
      rcases mkLookup_cases key default? with ⟨-, e⟩ | ⟨value, rfl, -⟩
      · exact e
      · exact absurd hnone (Option.some_ne_none value)
  | call op args ih =>
    cases h with
    | call hnone hargs =>
      have hsame : args.map fold = args := by
        rw [List.map_congr_left fun t ht => ih t ht (hargs t ht), List.map_id']
      rw [fold, allFold_eq_map, hsame, Term.mkCall, hnone]

/-! ## Folding makes nothing deeper -/

theorem depth_mkCall_le (op : Operator) (args : List Term) :
    (mkCall op args).depth ≤ (call op args).depth := by
  rcases mkCall_cases op args with ⟨-, e⟩ | ⟨c, values, -, -, e⟩
  · exact Nat.le_of_eq (congrArg depth e)
  · rw [e]
    exact depth_pos _

theorem depth_mkLookup_le (key : Term) (default? : Option Term) :
    (mkLookup key default?).depth ≤ (lookup key default?).depth := by
  rcases mkLookup_cases key default? with ⟨-, e⟩ | ⟨value, rfl, e⟩
  · exact Nat.le_of_eq (congrArg depth e)
  · rw [e]
    rcases ofKey_cases value default? with ⟨text, -, e⟩ | ⟨-, e⟩
    · rw [e, depth, depth]
      exact Nat.add_le_add_right (Nat.le_max_right _ _) 1
    · cases default? with
      | none =>
        rw [e]
        exact depth_pos _
      | some t =>
        rw [e, depth]
        exact Nat.le_add_right_of_le (Nat.le_max_right _ _)

theorem depth_fold_le (t : Term) : t.fold.depth ≤ t.depth := by
  have hoption : ∀ {default? : Option Term}, (∀ t ∈ default?, t.fold.depth ≤ t.depth) →
      optionDepth (default?.map fold) ≤ optionDepth default? := by
    intro default? ih
    cases default? with
    | none => exact Nat.le_refl 0
    | some t => exact ih t rfl
  induction t with
  | literal value => exact Nat.le_refl 1
  | reference path default? ih =>
    rw [fold, optionFold_eq_map]
    exact Nat.add_le_add_right (hoption ih) 1
  | lookup key default? ihKey ih =>
    rw [fold, optionFold_eq_map]
    refine Nat.le_trans (depth_mkLookup_le _ _) (Nat.add_le_add_right (Nat.max_le.2 ⟨?_, ?_⟩) 1)
    · exact Nat.le_trans ihKey (Nat.le_max_left _ _)
    · exact Nat.le_trans (hoption ih) (Nat.le_max_right _ _)
  | call op args ih =>
    rw [fold, allFold_eq_map]
    refine Nat.le_trans (depth_mkCall_le _ _) (Nat.add_le_add_right (allDepth_le_iff.2 ?_) 1)
    have hargs := allDepth_le_iff.1 (Nat.le_refl (allDepth args))
    exact List.forall_mem_map.2 fun t ht => Nat.le_trans (ih t ht) (hargs t ht)

/-! ## Folding keeps a term expressible -/

theorem Expressible.mkCall (op : Operator) {args : List Term} (h : ∀ t ∈ args, Expressible t) :
    Expressible (mkCall op args) := by
  rcases mkCall_cases op args with ⟨-, e⟩ | ⟨c, values, -, -, e⟩
  · exact e ▸ .call h
  · exact e ▸ .literal (c.ofValue_apply values)

theorem Expressible.mkLookup {key : Term} {default? : Option Term} (hkey : Expressible key)
    (h : ∀ t ∈ default?, Expressible t) : Expressible (mkLookup key default?) := by
  rcases mkLookup_cases key default? with ⟨hnone, e⟩ | ⟨value, -, e⟩
  · exact e ▸ .lookup (toRule_eq_object hnone) hkey h
  · rw [e]
    rcases ofKey_cases value default? with ⟨text, -, e⟩ | ⟨-, e⟩
    · exact e ▸ .reference (Path.ofString_toString text) h
    · cases default? with
      | none => exact e ▸ .literal rfl
      | some t => exact e ▸ h t rfl

theorem Expressible.fold {t : Term} (h : t.Expressible) : t.fold.Expressible := by
  induction t with
  | literal value => exact h
  | reference path default? ih =>
    cases h with
    | reference hpath hdefault =>
      rw [Term.fold, optionFold_eq_map]
      exact .reference hpath (Option.forall_mem_map.2 fun t ht => ih t ht (hdefault t ht))
  | lookup key default? ihKey ih =>
    cases h with
    | lookup hobject hkey hdefault =>
      rw [Term.fold, optionFold_eq_map]
      exact .mkLookup (ihKey hkey) (Option.forall_mem_map.2 fun t ht => ih t ht (hdefault t ht))
  | call op args ih =>
    cases h with
    | call hargs =>
      rw [Term.fold, allFold_eq_map]
      exact .mkCall op (List.forall_mem_map.2 fun t ht => ih t ht (hargs t ht))

end Term

end JsonRules
