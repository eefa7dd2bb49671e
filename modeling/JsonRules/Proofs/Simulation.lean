import JsonRules.Operator.Run
import JsonRules.Rule.Fallback
import Mathlib.Data.List.Forall2

/-!
# Simulation of one evaluation by another

Operators run their arguments in any monad and know nothing else about them. So if two evaluations
correspond argument by argument, every operator makes corresponding computations of them. What it is
to correspond is a `Simulation`: a relation between the computations of two monads that holds of
equal results and of equal logs, and that is kept by running one computation after another.

Main statement: `Simulation.Corresponding.rel_run`. The simulation used most is `Simulation.lifted`,
which relates computations that do nothing but log to themselves, seen from within a larger monad.
-/

namespace JsonRules

/-- A relation between the computations of two monads that evaluations may be related by. -/
structure Simulation (m n : Type → Type) [Monad m] [Monad n] [MonadLiftT Logged m]
    [MonadLiftT Logged n] where
  /-- Which computations correspond. -/
  Rel {α : Type} : m α → n α → Prop
  /-- Equal results correspond. -/
  rel_pure {α : Type} (a : α) : Rel (pure a) (pure a)
  /-- Computations correspond if their first parts do, and their second parts whatever the result of
  the first. -/
  rel_bind {α β : Type} {x : m α} {y : n α} {f : α → m β} {g : α → n β} :
    Rel x y → (∀ a, Rel (f a) (g a)) → Rel (x >>= f) (y >>= g)
  /-- What only logs corresponds to itself. -/
  rel_lift {α : Type} (x : Logged α) : Rel (liftM x : m α) (liftM x : n α)

namespace Simulation

/-- Computations that do nothing but log correspond to themselves within a larger monad. -/
def lifted (m : Type → Type) [Monad m] [MonadLiftT Logged m] [LawfulMonadLiftT Logged m] :
    Simulation m Logged where
  Rel x y := x = monadLift y
  rel_pure a := (monadLift_pure a).symm
  rel_bind := by
    intro α β x y f g hx hf
    rw [monadLift_bind, hx, funext hf]
  rel_lift _ := rfl

variable {m n : Type → Type} [Monad m] [Monad n] [MonadLiftT Logged m] [MonadLiftT Logged n]
  (S : Simulation m n) {ρ σ : Type}

theorem rel_mapM [LawfulMonad m] [LawfulMonad n] {α : Type} {f : ρ → m α} {g : σ → n α}
    {args : List ρ} {args' : List σ} (h : List.Forall₂ (fun a b => S.Rel (f a) (g b)) args args') :
    S.Rel (args.mapM f) (args'.mapM g) := by
  induction h with
  | nil => exact S.rel_pure []
  | cons hab _ ih =>
    rw [List.mapM_cons, List.mapM_cons]
    exact S.rel_bind hab fun v => S.rel_bind ih fun rest => S.rel_pure (v :: rest)

/-! ## Variables -/

theorem rel_orDefault {eval : ρ → m Value} {eval' : σ → n Value} (found : Option Value)
    {default? : Option ρ} {default'? : Option σ}
    (h : Option.Rel (fun a b => S.Rel (eval a) (eval' b)) default? default'?) :
    S.Rel (orDefault eval found default?) (orDefault eval' found default'?) := by
  unfold orDefault
  cases h with
  | none => cases present? found <;> exact S.rel_pure _
  | some hab =>
    cases present? found with
    | none => exact hab
    | some v => exact S.rel_pure v

/-! ## Control operators -/

section Control

variable {eval : ρ → m Value} {eval' : σ → n Value} {test : Value → m Value}
  {test' : Value → n Value}

theorem rel_untilTruth (stop : Bool) {args : List ρ} {args' : List σ}
    (h : List.Forall₂ (fun a b => S.Rel (eval a) (eval' b)) args args') :
    S.Rel (Control.untilTruth stop eval args) (Control.untilTruth stop eval' args') := by
  induction h with
  | nil => exact S.rel_pure _
  | cons hab hrest ih =>
    cases hrest with
    | nil => exact hab
    | cons _ _ =>
      refine S.rel_bind hab ?_
      intro v
      by_cases hv : v.isTruthy = stop
      · rw [if_pos hv, if_pos hv]
        exact S.rel_pure v
      · rw [if_neg hv, if_neg hv]
        exact ih

/-- The recursion takes two arguments at a time, and so does the induction. -/
theorem rel_choose : ∀ {args : List ρ} {args' : List σ},
    List.Forall₂ (fun a b => S.Rel (eval a) (eval' b)) args args' →
    S.Rel (Control.choose eval args) (Control.choose eval' args')
  | _, _, .nil => S.rel_pure _
  | _, _, .cons hab .nil => hab
  | _, _, .cons hcondition (.cons hbranch hrest) => by
    refine S.rel_bind hcondition ?_
    intro v
    by_cases hv : v.isTruthy = true
    · rw [if_pos hv, if_pos hv]
      exact hbranch
    · rw [if_neg hv, if_neg hv]
      exact rel_choose hrest

theorem rel_keepTruthy (h : ∀ v, S.Rel (test v) (test' v)) (items : List Value) :
    S.Rel (Control.keepTruthy test items) (Control.keepTruthy test' items) := by
  induction items with
  | nil => exact S.rel_pure _
  | cons item rest ih =>
    exact S.rel_bind (h item) fun v => S.rel_bind ih fun kept => S.rel_pure _

theorem rel_anyTruthy (h : ∀ v, S.Rel (test v) (test' v)) (items : List Value) :
    S.Rel (Control.anyTruthy test items) (Control.anyTruthy test' items) := by
  induction items with
  | nil => exact S.rel_pure _
  | cons item rest ih =>
    refine S.rel_bind (h item) ?_
    intro v
    by_cases hv : v.isTruthy = true
    · rw [if_pos hv, if_pos hv]
      exact S.rel_pure true
    · rw [if_neg hv, if_neg hv]
      exact ih

theorem rel_allTruthy (h : ∀ v, S.Rel (test v) (test' v)) (items : List Value) :
    S.Rel (Control.allTruthy test items) (Control.allTruthy test' items) := by
  induction items with
  | nil => exact S.rel_pure _
  | cons item rest ih =>
    refine S.rel_bind (h item) ?_
    intro v
    by_cases hv : v.isTruthy = true
    · rw [if_pos hv, if_pos hv]
      exact ih
    · rw [if_neg hv, if_neg hv]
      exact S.rel_pure false

theorem rel_accumulate (h : ∀ v, S.Rel (test v) (test' v)) (items : List Value) :
    ∀ accumulator : Value, S.Rel (Control.accumulate test accumulator items)
      (Control.accumulate test' accumulator items) := by
  induction items with
  | nil => exact fun accumulator => S.rel_pure accumulator
  | cons item rest ih =>
    exact fun accumulator => S.rel_bind (h _) fun v => ih v

end Control

/-! ## Operators -/

/-- Arguments evaluate to corresponding computations, whatever the data. -/
def Corresponding (eval : ρ → Value → m Value) (eval' : σ → Value → n Value) (args : List ρ)
    (args' : List σ) : Prop :=
  List.Forall₂ (fun a b => ∀ data, S.Rel (eval a data) (eval' b data)) args args'

variable {S} {eval : ρ → Value → m Value} {eval' : σ → Value → n Value} {args : List ρ}
  {args' : List σ}

theorem Corresponding.on (h : S.Corresponding eval eval' args args') (data : Value) :
    List.Forall₂ (fun a b => S.Rel (eval a data) (eval' b data)) args args' :=
  List.Forall₂.imp (fun _ _ hab => hab data) h

theorem Corresponding.rel_evalArgument (h : S.Corresponding eval eval' args args') (position : Nat)
    (data : Value) :
    S.Rel (Control.evalArgument eval args position data)
      (Control.evalArgument eval' args' position data) := by
  unfold Control.evalArgument
  induction h generalizing position with
  | nil => exact S.rel_pure _
  | cons hab _ ih =>
    cases position with
    | zero => exact hab data
    | succ position => exact ih position

theorem Corresponding.rel_control [LawfulMonad m] [LawfulMonad n]
    (h : S.Corresponding eval eval' args args') (c : Control) (data : Value) :
    S.Rel (c.run eval args data) (c.run eval' args' data) := by
  have list := h.rel_evalArgument 0 data
  have body := h.rel_evalArgument 1
  cases c with
  | and => exact S.rel_untilTruth false (h.on data)
  | or => exact S.rel_untilTruth true (h.on data)
  | ifElse => exact S.rel_choose (h.on data)
  | ternary => exact S.rel_choose (h.on data)
  | map =>
    refine S.rel_bind list fun v => S.rel_bind ?_ fun results => S.rel_pure _
    exact S.rel_mapM (List.forall₂_same.2 fun item _ => body item)
  | filter =>
    exact S.rel_bind list fun v => S.rel_bind (S.rel_keepTruthy body _) fun kept => S.rel_pure _
  | reduce =>
    refine S.rel_bind list fun v => S.rel_bind (h.rel_evalArgument 2 data) ?_
    intro initial
    exact S.rel_accumulate body _ initial
  | all =>
    exact S.rel_bind list fun v => S.rel_bind (S.rel_allTruthy body _) fun holds => S.rel_pure _
  | any =>
    exact S.rel_bind list fun v => S.rel_bind (S.rel_anyTruthy body _) fun found => S.rel_pure _
  | notAny =>
    exact S.rel_bind list fun v => S.rel_bind (S.rel_anyTruthy body _) fun found => S.rel_pure _

/-- Every operator makes corresponding computations of corresponding arguments. -/
theorem Corresponding.rel_run [LawfulMonad m] [LawfulMonad n]
    (h : S.Corresponding eval eval' args args') (op : Operator) (data : Value) :
    S.Rel (op.run eval args data) (op.run eval' args' data) := by
  cases op with
  | eager op => exact S.rel_bind (S.rel_mapM (h.on data)) fun values => S.rel_lift _
  | control c => exact h.rel_control c data

end Simulation

end JsonRules
