import JsonRules.Proofs.Rule.Fault

/-!
# Outcomes and logs of evaluations

An evaluation is known by what it comes to and what it logs (`Evaluation.ext`). One evaluation after
another comes to what the second one does with the value of the first, and logs what the first one
logs and then what the second one does, which is not run if the first one fails.
-/

namespace JsonRules

namespace Evaluation

variable {α β : Type} {x : Evaluation α} {f g : α → Evaluation β}

/-- What an evaluation logs. -/
def logged (x : Evaluation α) : List Value := x.run.log

theorem ext {y : Evaluation α} (houtcome : x.outcome = y.outcome) (hlogged : x.logged = y.logged) :
    x = y :=
  ExceptT.ext (Logged.ext houtcome hlogged)

theorem outcome_bind_of_ok {a : α} (h : x.outcome = .ok a) (f : α → Evaluation β) :
    (x >>= f).outcome = (f a).outcome := by
  rw [outcome_bind, h]
  rfl

theorem outcome_bind_of_error {e : RuleError} (h : x.outcome = .error e) (f : α → Evaluation β) :
    (x >>= f).outcome = .error e := by
  rw [outcome_bind, h]
  rfl

theorem logged_bind_of_ok {a : α} (h : x.outcome = .ok a) (f : α → Evaluation β) :
    (x >>= f).logged = x.logged ++ (f a).logged := by
  unfold outcome at h
  unfold logged
  rw [ExceptT.run_bind, Logged.log_bind, h]

theorem logged_bind_of_error {e : RuleError} (h : x.outcome = .error e) (f : α → Evaluation β) :
    (x >>= f).logged = x.logged := by
  unfold outcome at h
  unfold logged
  rw [ExceptT.run_bind, Logged.log_bind, h]
  exact List.append_nil _

/-- What follows an evaluation matters only for the value that it has. -/
theorem bind_congr_of_outcome (h : ∀ a, x.outcome = .ok a → f a = g a) : x >>= f = x >>= g := by
  cases hx : x.outcome with
  | error e =>
    apply ext
    · rw [outcome_bind_of_error hx, outcome_bind_of_error hx]
    · rw [logged_bind_of_error hx, logged_bind_of_error hx]
  | ok a =>
    apply ext
    · rw [outcome_bind_of_ok hx, outcome_bind_of_ok hx, h a hx]
    · rw [logged_bind_of_ok hx, logged_bind_of_ok hx, h a hx]

end Evaluation

end JsonRules
