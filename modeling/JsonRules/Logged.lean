import JsonRules.Value.Basic

/-!
# Logged computations

Evaluation has one effect besides its result: the values that it logs, in order. A `Logged` result
carries them along, and running one computation after another appends its log to the log of the
first. This is a lawful monad, so evaluation can be written and reasoned about step by step.
-/

namespace JsonRules

/-- A result together with the values logged on the way to it. -/
structure Logged (α : Type) where
  /-- The result. -/
  value : α
  /-- What has been logged, first entry first. -/
  log : List Value

namespace Logged

variable {α β : Type}

/-- Two logged results are equal if their values and their logs are. -/
@[ext]
theorem ext {x y : Logged α} (hv : x.value = y.value) (hl : x.log = y.log) : x = y := by
  cases x; cases y; simp_all

/-- The computation that logs a value. -/
def record (v : Value) : Logged Unit := ⟨(), [v]⟩

instance : Monad Logged where
  pure v := ⟨v, []⟩
  bind x f := ⟨(f x.value).value, x.log ++ (f x.value).log⟩

@[simp] theorem value_pure (v : α) : (pure v : Logged α).value = v := rfl

@[simp] theorem log_pure (v : α) : (pure v : Logged α).log = [] := rfl

@[simp] theorem value_bind (x : Logged α) (f : α → Logged β) :
    (x >>= f).value = (f x.value).value := rfl

@[simp] theorem log_bind (x : Logged α) (f : α → Logged β) :
    (x >>= f).log = x.log ++ (f x.value).log := rfl

instance : LawfulMonad Logged :=
  LawfulMonad.mk' Logged
    (fun x => by ext1 <;> simp [Functor.map])
    (fun _ _ => by ext1 <;> simp)
    (fun _ _ _ => by ext1 <;> simp)

end Logged

end JsonRules
