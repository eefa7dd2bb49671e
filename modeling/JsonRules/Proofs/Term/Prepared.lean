import JsonRules.Proofs.Term.Literals
import JsonRules.Proofs.Term.Meaning

/-!
# Prepared terms

What is laid out of a term is the term itself or, if constants are folded, the folded term
(`Term.prepared`). Either way it means the same, has no more levels, is expressible if the term was,
its literals keep their compositional properties, and it is left as it is when it is prepared again.

Compilation takes the steps of folding one after the other. So it is said here for each kind of term
what it comes to, and how many calls and keys in it were found to be known, by what the terms inside
it come to (`prepared_lookup_of_none`, `prepared_lookup_of_some`, `prepared_call_of_none`,
`prepared_call_of_some`).
-/

namespace JsonRules

namespace Term

/-- The term that is laid out for the term of a rule. -/
def prepared (foldConstants : Bool) (t : Term) : Term := if foldConstants then t.fold else t

/-- The number of calls and keys in a term that are found to be known. -/
def steps (foldConstants : Bool) (t : Term) : Nat := if foldConstants then t.foldSteps else 0

/-- The number of calls and keys in a default that are found to be known. -/
def optionSteps (foldConstants : Bool) (default? : Option Term) : Nat :=
  (default?.map (steps foldConstants)).getD 0

/-- The number of calls and keys in arguments that are found to be known. -/
def allSteps (foldConstants : Bool) : List Term → Nat
  | [] => 0
  | t :: rest => t.steps foldConstants + allSteps foldConstants rest

/-! ## What preparing a term keeps -/

section Kept

variable {foldConstants : Bool}

/-- Folding does not change what a term means. -/
theorem meaning_prepared (t : Term) : (t.prepared foldConstants).meaning = t.meaning := by
  unfold prepared
  split
  · exact t.meaning_fold
  · rfl

theorem depth_prepared_le (t : Term) : (t.prepared foldConstants).depth ≤ t.depth := by
  unfold prepared
  split
  · exact t.depth_fold_le
  · exact Nat.le_refl _

theorem Expressible.prepared {t : Term} (h : t.Expressible) :
    (t.prepared foldConstants).Expressible := by
  unfold Term.prepared
  split
  · exact h.fold
  · exact h

theorem LiteralsIn.prepared {P : Value → Prop} (hP : Value.Compositional P) {t : Term}
    (h : t.LiteralsIn P) : (t.prepared foldConstants).LiteralsIn P := by
  unfold Term.prepared
  split
  · exact h.fold hP
  · exact h

/-- A term that has been prepared once is left as it is. -/
theorem prepared_prepared (t : Term) :
    (t.prepared foldConstants).prepared foldConstants = t.prepared foldConstants := by
  unfold prepared
  split
  · exact t.folded_fold.fold_eq
  · rfl

/-- What is laid out for the term of a rule is read back from its own rule. -/
theorem ofRule_toRule_prepared {limit : Nat} {rule : Value} {t : Term}
    (h : ofRule limit rule = .ok t) :
    ofRule limit (t.prepared foldConstants).toRule = .ok (t.prepared foldConstants) := by
  have hdepth : (t.prepared foldConstants).depth ≤ limit :=
    Nat.le_trans t.depth_prepared_le (depth_le_of_ofRuleWithin h)
  exact ofRuleWithin_toRule (expressible_of_ofRuleWithin h).prepared hdepth

end Kept

/-! ## Steps of preparing a term -/

theorem optionFoldSteps_eq (default? : Option Term) :
    optionFoldSteps default? = optionSteps true default? := by
  cases default? <;> rfl

theorem allFoldSteps_eq (args : List Term) : allFoldSteps args = allSteps true args := by
  induction args with
  | nil => rfl
  | cons t rest ih =>
    rw [allFoldSteps, ih]
    rfl

theorem optionSteps_false (default? : Option Term) : optionSteps false default? = 0 := by
  cases default? <;> rfl

theorem allSteps_false (args : List Term) : allSteps false args = 0 := by
  induction args with
  | nil => rfl
  | cons t rest ih => exact (Nat.zero_add _).trans ih

theorem optionPrepared_false (default? : Option Term) : default?.map (prepared false) = default? :=
  Option.map_id'

theorem allPrepared_false (args : List Term) : args.map (prepared false) = args :=
  List.map_id' args

variable (foldConstants : Bool)

theorem prepared_literal (value : Value) :
    (literal value).prepared foldConstants = literal value := by
  cases foldConstants <;> rfl

theorem steps_literal (value : Value) : (literal value).steps foldConstants = 0 := by
  cases foldConstants <;> rfl

theorem prepared_reference (path : Path) (default? : Option Term) :
    (reference path default?).prepared foldConstants =
      reference path (default?.map (prepared foldConstants)) := by
  cases foldConstants with
  | true => exact congrArg (reference path) (optionFold_eq_map default?)
  | false => exact congrArg (reference path) (optionPrepared_false default?).symm

theorem steps_reference (path : Path) (default? : Option Term) :
    (reference path default?).steps foldConstants = optionSteps foldConstants default? := by
  cases foldConstants with
  | true => exact optionFoldSteps_eq default?
  | false => exact (optionSteps_false default?).symm

variable {foldConstants}

/-- A variable stays what it is if its key is not found to be known. -/
theorem prepared_lookup_of_none {key : Term}
    (h : (if foldConstants then (key.prepared foldConstants).literal? else none) = none)
    (default? : Option Term) :
    (lookup key default?).prepared foldConstants =
        lookup (key.prepared foldConstants) (default?.map (prepared foldConstants)) ∧
      (lookup key default?).steps foldConstants =
        key.steps foldConstants + optionSteps foldConstants default? := by
  cases foldConstants with
  | false =>
    rw [optionPrepared_false, optionSteps_false]
    exact ⟨rfl, rfl⟩
  | true =>
    have hkey : key.fold.literal? = none := h
    constructor
    · rcases mkLookup_cases key.fold (default?.map fold) with ⟨-, e⟩ | ⟨value, hvalue, -⟩
      · rw [prepared, if_pos rfl, fold, optionFold_eq_map, e]
        rfl
      · rw [hvalue] at hkey
        exact absurd hkey (Option.some_ne_none value)
    · rw [steps, if_pos rfl, foldSteps, optionFoldSteps_eq, hkey]
      rfl

/-- A variable whose key is found to be known becomes a variable with a known path or its default.
-/
theorem prepared_lookup_of_some {key : Term} {value : Value}
    (h : (if foldConstants then (key.prepared foldConstants).literal? else none) = some value)
    (default? : Option Term) :
    (lookup key default?).prepared foldConstants =
        ofKey value (default?.map (prepared foldConstants)) ∧
      (lookup key default?).steps foldConstants =
        key.steps foldConstants + 1 + optionSteps foldConstants default? := by
  cases foldConstants with
  | false => exact absurd h.symm (Option.some_ne_none value)
  | true =>
    have hkey : key.fold = literal value := eq_literal_of_literal? h
    constructor
    · rw [prepared, if_pos rfl, fold, optionFold_eq_map, hkey]
      rfl
    · rw [steps, if_pos rfl, foldSteps, optionFoldSteps_eq, hkey]
      exact Nat.add_right_comm ..

/-- A call stays what it is if its result is not found to be known. -/
theorem prepared_call_of_none {op : Operator} {args : List Term}
    (h : (if foldConstants then constantCall? op (args.map (prepared foldConstants)) else none) =
      none) :
    (call op args).prepared foldConstants = call op (args.map (prepared foldConstants)) ∧
      (call op args).steps foldConstants = allSteps foldConstants args := by
  cases foldConstants with
  | false =>
    rw [allPrepared_false, allSteps_false]
    exact ⟨rfl, rfl⟩
  | true =>
    have hnone : constantCall? op (args.map fold) = none := h
    constructor
    · rw [prepared, if_pos rfl, fold, allFold_eq_map, mkCall, hnone]
      rfl
    · rw [steps, if_pos rfl, foldSteps, allFoldSteps_eq, allFold_eq_map, hnone]
      rfl

/-- A call whose result is found to be known becomes that result. -/
theorem prepared_call_of_some {op : Operator} {args : List Term} {value : Value}
    (h : (if foldConstants then constantCall? op (args.map (prepared foldConstants)) else none) =
      some value) :
    (call op args).prepared foldConstants = literal value ∧
      (call op args).steps foldConstants = allSteps foldConstants args + 1 := by
  cases foldConstants with
  | false => exact absurd h.symm (Option.some_ne_none value)
  | true =>
    have hsome : constantCall? op (args.map fold) = some value := h
    constructor
    · rw [prepared, if_pos rfl, fold, allFold_eq_map, mkCall, hsome]
    · rw [steps, if_pos rfl, foldSteps, allFoldSteps_eq, allFold_eq_map, hsome]
      rfl

end Term

end JsonRules
