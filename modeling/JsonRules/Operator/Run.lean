import JsonRules.Logged
import JsonRules.Operator.Calculation
import JsonRules.Operator.Control
import JsonRules.Operator.Inquiry

/-!
# Running operators

An eager operator evaluates all its arguments, from left to right and the surplus ones too, and then
combines the values of those that count. A control operator runs its arguments itself. Both log into
whatever monad the evaluation takes place in.
-/

namespace JsonRules

/-- The result of an eager operator on the values of its arguments. -/
def Eager.combine (op : Eager) (data : Value) (args : List Value) : Logged Value :=
  match op with
  | calculation c => pure (c.apply args)
  | inquiry q => pure (q.compute data (q.arity.trim args))
  | log => do
    let v := Calculation.argument args 0
    Logged.record v
    pure v

/-- Runs an operator on its arguments, given a way to evaluate one of them. -/
def Operator.run {m : Type → Type} [Monad m] [MonadLiftT Logged m] {ρ : Type} (op : Operator)
    (eval : ρ → Value → m Value) (args : List ρ) (data : Value) : m Value :=
  match op with
  | eager op => do
    let values ← args.mapM (eval · data)
    liftM (op.combine data values)
  | control op => op.run eval args data

end JsonRules
