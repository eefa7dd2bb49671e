import JsonRules.Value.Basic

/-!
# Values of variables

What a variable is worth once its path has been resolved: the value found in the data, unless there
is none or it is absent; then the value of the default, which is evaluated only in that case; and
without a default the absent value. Defaults may have any type `ρ` that can be evaluated.
-/

namespace JsonRules

/-- A value found in the data, unless there is none or it is absent. -/
def present? : Option Value → Option Value
  | some .null | none => none
  | some v => some v

/-- The value of a variable for which something may have been found. -/
def orDefault {m : Type → Type} [Monad m] {ρ : Type} (eval : ρ → m Value) (found : Option Value)
    (default? : Option ρ) : m Value :=
  match present? found, default? with
  | some v, _ => pure v
  | none, some default => eval default
  | none, none => pure .null

end JsonRules
