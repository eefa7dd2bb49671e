import JsonRules.Operator.Basic
import JsonRules.Value.Coercion

/-!
# Control operators

A control operator runs its arguments itself. It is given a list of arguments of any type `ρ` and a
way to evaluate one of them against data of its choice, in any monad; so the same definition serves
every form that a rule may have and every effect of its evaluation. An argument that is not there
evaluates to the absent value.

The iterating operators take the items of an array from their first argument and evaluate the second
once per item, with the item as data; whatever is not an array has no items.
-/

namespace JsonRules

namespace Control

variable {m : Type → Type} [Monad m] {ρ : Type}

/-- Evaluates the argument at a position, if it is there. -/
def evalArgument (eval : ρ → Value → m Value) (args : List ρ) (position : Nat) (data : Value) :
    m Value :=
  match args[position]? with
  | some arg => eval arg data
  | none => pure .null

/-- Evaluates arguments up to the first whose truth value is `stop`. The result is that of the last
one evaluated. -/
def untilTruth (stop : Bool) (eval : ρ → m Value) : List ρ → m Value
  | [] => pure .null
  | [arg] => eval arg
  | arg :: next :: rest => do
    let v ← eval arg
    if v.isTruthy = stop then pure v else untilTruth stop eval (next :: rest)

/-- Evaluates conditions up to the first that is true, and then its branch. A last argument without
a branch is evaluated if no condition is true. -/
def choose (eval : ρ → m Value) : List ρ → m Value
  | [] => pure .null
  | [otherwise] => eval otherwise
  | condition :: branch :: rest => do
    let v ← eval condition
    if v.isTruthy then eval branch else choose eval rest

/-- The items that a test is true of. -/
def keepTruthy (test : Value → m Value) : List Value → m (List Value)
  | [] => pure []
  | item :: rest => do
    let v ← test item
    let kept ← keepTruthy test rest
    pure (if v.isTruthy then item :: kept else kept)

/-- Whether a test is true of an item, which is tested for no further item after one that passes. -/
def anyTruthy (test : Value → m Value) : List Value → m Bool
  | [] => pure false
  | item :: rest => do
    let v ← test item
    if v.isTruthy then pure true else anyTruthy test rest

/-- Whether a test is true of every item, which is tested for no further item after one that
fails. -/
def allTruthy (test : Value → m Value) : List Value → m Bool
  | [] => pure true
  | item :: rest => do
    let v ← test item
    if v.isTruthy then allTruthy test rest else pure false

/-- The data that the body of a reduction sees. -/
def reductionScope (accumulator current : Value) : Value :=
  .object [("accumulator", accumulator), ("current", current)]

/-- Combines items from left to right into an accumulator. -/
def accumulate (body : Value → m Value) : Value → List Value → m Value
  | accumulator, [] => pure accumulator
  | accumulator, current :: rest => do
    let v ← body (reductionScope accumulator current)
    accumulate body v rest

/-- Runs a control operator on its arguments. -/
def run (c : Control) (eval : ρ → Value → m Value) (args : List ρ) (data : Value) : m Value :=
  let arg := evalArgument eval args
  match c with
  | and => untilTruth false (eval · data) args
  | or => untilTruth true (eval · data) args
  | ifElse | ternary => choose (eval · data) args
  | map => do
    let list ← arg 0 data
    let results ← list.items.mapM (arg 1)
    pure (.array results)
  | filter => do
    let list ← arg 0 data
    let kept ← keepTruthy (arg 1) list.items
    pure (.array kept)
  | reduce => do
    let list ← arg 0 data
    let initial ← arg 2 data
    accumulate (arg 1) initial list.items
  | all => do
    let list ← arg 0 data
    let holds ← allTruthy (arg 1) list.items
    pure (.bool (holds && !list.items.isEmpty))
  | any => do
    let list ← arg 0 data
    let found ← anyTruthy (arg 1) list.items
    pure (.bool found)
  | notAny => do
    let list ← arg 0 data
    let found ← anyTruthy (arg 1) list.items
    pure (.bool !found)

end Control

end JsonRules
