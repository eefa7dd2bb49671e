import JsonRules.Operator.Run
import JsonRules.Rule.Fallback
import JsonRules.Rule.Form

/-!
# Evaluation of rules

A rule is evaluated against data by looking at its form and evaluating the rules inside it, each of
them one level further down. Only rules that are reached are looked at, so a fault elsewhere goes
unnoticed. Evaluation may log values and may fail; what was logged before a failure remains logged.

The depth of nesting is limited. The limit counts down as the number of `levels` that are left, and
a rule for which none is left is too deep whatever its form.
-/

namespace JsonRules

/-- Evaluation: a value or a fault, after values have been logged. -/
abbrev Evaluation := ExceptT RuleError Logged

/-- Evaluates a rule with so many levels left of a limit. -/
def evaluateWithin (limit : Nat) : (levels : Nat) → (rule data : Value) → Evaluation Value
  | 0, _, _ => throw (.tooDeep limit)
  | levels + 1, rule, data =>
    let eval := evaluateWithin limit levels
    match Form.ofValue rule with
    | .error e => throw e
    | .ok .literal => pure rule
    | .ok (.reference (.path text) default?) =>
      orDefault (eval · data) (data.resolve? text) default?
    | .ok (.reference (.computed keyRule) default?) => do
      let key ← eval keyRule data
      orDefault (eval · data) (data.resolveKey? key) default?
    | .ok (.call op args) => op.run eval args data

/-- Evaluates a rule against data, with at most `limit` rules inside one another. -/
def evaluate (limit : Nat) (rule data : Value) : Logged (Except RuleError Value) :=
  (evaluateWithin limit limit rule data).run

end JsonRules
