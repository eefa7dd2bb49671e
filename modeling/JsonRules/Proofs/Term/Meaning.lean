import JsonRules.Proofs.Path
import JsonRules.Proofs.Simulation
import JsonRules.Proofs.Term.Basic
import JsonRules.Rule.Evaluation

/-!
# Meaning of terms

The meaning of a term is a function from data to logged values. It is defined by recursion on the
term alone: the arguments of a call are passed to its operator as the functions that they mean.
Every other evaluation is compared with it. Main statements:

* evaluating a rule gives what its term means (`evaluateWithin_eq_meaning`), so a rule that has a
  term never fails;
* folding keeps the meaning (`meaning_fold`).
-/

namespace JsonRules

namespace Term

mutual

/-- The value of a term for data, and what it logs. -/
def meaning : Term → Value → Logged Value
  | literal value, _ => pure value
  | reference path default?, data =>
    orDefault (fun f => f data) (path.resolve? data) (optionMeaning default?)
  | lookup key default?, data => do
    let key ← meaning key data
    orDefault (fun f => f data) (data.resolveKey? key) (optionMeaning default?)
  | call op args, data => op.run (fun f => f) (allMeaning args) data

def optionMeaning : Option Term → Option (Value → Logged Value)
  | none => none
  | some t => some (meaning t)

def allMeaning : List Term → List (Value → Logged Value)
  | [] => []
  | t :: rest => meaning t :: allMeaning rest

end

@[simp]
theorem optionMeaning_eq_map (default? : Option Term) :
    optionMeaning default? = default?.map meaning := by
  cases default? <;> rfl

@[simp]
theorem allMeaning_eq_map (args : List Term) : allMeaning args = args.map meaning := by
  induction args with
  | nil => rfl
  | cons t rest ih => rw [allMeaning, ih, List.map_cons]

/-! ## Evaluations that give the meaning of a term -/

section Evaluation

variable {m : Type → Type} [Monad m] [MonadLiftT Logged m] [LawfulMonadLiftT Logged m] {ρ : Type}

/-- Whatever evaluates to the meaning of a default can stand in its place. -/
theorem orDefault_eq_meaning {eval : ρ → m Value} {data : Value} (found : Option Value)
    {default? : Option ρ} {t? : Option Term}
    (h : Option.Rel (fun a t => eval a = monadLift (t.meaning data)) default? t?) :
    orDefault eval found default? =
      monadLift (orDefault (fun f => f data) found (optionMeaning t?)) := by
  refine (Simulation.lifted m).rel_orDefault found ?_
  cases h with
  | none => exact .none
  | some hat => exact .some hat

/-- Whatever evaluates to the meanings of a key and a default can stand in their places. -/
theorem lookup_eq_meaning (eval : ρ → m Value) {data : Value} {k : ρ} {key : Term}
    {default? : Option ρ} {t? : Option Term} (hkey : eval k = monadLift (key.meaning data))
    (hdefault : Option.Rel (fun a t => eval a = monadLift (t.meaning data)) default? t?) :
    (do
      let v ← eval k
      orDefault eval (data.resolveKey? v) default?) =
      monadLift ((lookup key t?).meaning data) := by
  rw [meaning]
  exact (Simulation.lifted m).rel_bind hkey fun v => orDefault_eq_meaning _ hdefault

/-- Whatever evaluates to the meanings of arguments can stand in their places. -/
theorem run_eq_meaning [LawfulMonad m] {eval : ρ → Value → m Value} {args : List ρ}
    {terms : List Term}
    (h : List.Forall₂ (fun a t => ∀ data, eval a data = monadLift (t.meaning data)) args terms)
    (op : Operator) (data : Value) :
    op.run eval args data = monadLift ((call op terms).meaning data) := by
  have hrun : (Simulation.lifted m).Corresponding eval (fun f => f) args (terms.map meaning) :=
    List.forall₂_map_right_iff.2 h
  rw [meaning, allMeaning_eq_map]
  exact hrun.rel_run op data

end Evaluation

/-! ## Rules -/

/-- A rule that has a term evaluates to what the term means. -/
theorem evaluateWithin_eq_meaning {limit levels : Nat} {rule : Value} {t : Term}
    (h : ofRuleWithin limit levels rule = .ok t) (data : Value) :
    evaluateWithin limit levels rule data = monadLift (t.meaning data) := by
  induction levels generalizing rule t data with
  | zero => exact absurd h (by simp [ofRuleWithin])
  | succ levels ih =>
    rw [evaluateWithin]
    cases ofRuleWithin_succ_iff.1 h with
    | literal hform =>
      rw [hform]
      exact (monadLift_pure rule).symm
    | reference hform hdefault =>
      rw [hform, meaning, Path.resolve?_ofString]
      exact orDefault_eq_meaning _ (option_rel_imp hdefault fun _ _ _ hs => ih hs data)
    | lookup hform hkey hdefault =>
      rw [hform]
      exact lookup_eq_meaning (evaluateWithin limit levels · data) (ih hkey data)
        (option_rel_imp hdefault fun _ _ _ hs => ih hs data)
    | call hform hargs =>
      rw [hform]
      exact run_eq_meaning (forall₂_imp hargs fun _ _ _ _ hs data => ih hs data) _ data

/-! ## Folding -/

theorem meaning_literal (value data : Value) : (literal value).meaning data = pure value := rfl

/-- Literals are evaluated by listing their values. -/
theorem mapM_meaning_literal (values : List Value) (data : Value) :
    ((values.map literal).map meaning).mapM (fun f => f data) =
      (pure values : Logged (List Value)) := by
  induction values with
  | nil => rfl
  | cons value rest ih =>
    rw [List.map_cons, List.map_cons, List.mapM_cons, ih, meaning_literal, pure_bind, pure_bind]

theorem meaning_mkCall (op : Operator) (args : List Term) (data : Value) :
    (mkCall op args).meaning data = (call op args).meaning data := by
  rcases mkCall_cases op args with ⟨-, h⟩ | ⟨c, values, rfl, rfl, h⟩
  · rw [h]
  · rw [h, meaning, meaning, allMeaning_eq_map, Operator.run, mapM_meaning_literal, pure_bind]
    rfl

/-- A key that is known leaves the default if it names no path, since nothing is found then. -/
theorem meaning_ofKey (key : Value) (default? : Option Term) (data : Value) :
    (ofKey key default?).meaning data = (lookup (literal key) default?).meaning data := by
  rw [meaning, meaning_literal, pure_bind, Value.resolveKey?]
  rcases ofKey_cases key default? with ⟨text, htext, h⟩ | ⟨hnone, h⟩
  · rw [h, htext, Option.bind_some, ← Path.resolve?_ofString, meaning]
  · rw [h, hnone]
    cases default? <;> rfl

theorem meaning_mkLookup (key : Term) (default? : Option Term) (data : Value) :
    (mkLookup key default?).meaning data = (lookup key default?).meaning data := by
  rcases mkLookup_cases key default? with ⟨-, h⟩ | ⟨value, rfl, h⟩
  · rw [h]
  · rw [h, meaning_ofKey]

/-- Folding keeps the meaning of a term. -/
theorem meaning_fold (t : Term) : t.fold.meaning = t.meaning := by
  have hdefault : ∀ default? : Option Term, (∀ t ∈ default?, t.fold.meaning = t.meaning) →
      (default?.map fold).map meaning = default?.map meaning := by
    intro default? ih
    rw [Option.map_map]
    exact Option.map_congr ih
  induction t with
  | literal value => rfl
  | reference path default? ih =>
    funext data
    rw [fold, meaning, meaning, optionFold_eq_map, optionMeaning_eq_map, optionMeaning_eq_map,
      hdefault default? ih]
  | lookup key default? ihKey ih =>
    funext data
    rw [fold, meaning_mkLookup, meaning, meaning, ihKey, optionFold_eq_map, optionMeaning_eq_map,
      optionMeaning_eq_map, hdefault default? ih]
  | call op args ih =>
    funext data
    have hargs : (args.map fold).map meaning = args.map meaning := by
      rw [List.map_map]
      exact List.map_congr_left ih
    rw [fold, meaning_mkCall, meaning, meaning, allFold_eq_map, allMeaning_eq_map,
      allMeaning_eq_map, hargs]

end Term

end JsonRules
