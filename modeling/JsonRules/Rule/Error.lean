import JsonRules.Value.Text

/-!
# Errors of rules

Why a value is not a rule. Data never cause an error: whatever a rule makes of them has a value.
-/

namespace JsonRules

/-- A fault in a rule. -/
inductive RuleError where
  /-- The name in operator position is no operator. -/
  | unknownOperator (name : String)
  /-- An object in rule position has several keys. -/
  | severalKeys (keys : List String)
  /-- A variable has more arguments than a path and a default. -/
  | surplusVariableArguments (count : Nat)
  /-- A value in the place of a variable's path names no path. -/
  | notAPath (key : Value)
  /-- The rule is nested more deeply than allowed. -/
  | tooDeep (limit : Nat)

namespace RuleError

/-- What is malformed about the rule, where that is the fault. -/
def malformation? : RuleError → Option String
  | unknownOperator _ | tooDeep _ => none
  | severalKeys keys =>
    some ("operator object has " ++ Text.numeral keys.length ++ " keys: "
      ++ ", ".intercalate (keys.map Text.quoted))
  | surplusVariableArguments count =>
    some ("var takes a path and an optional default, got " ++ Text.numeral count ++ " arguments")
  | notAPath key => some ("invalid var path " ++ key.display)

/-- The wording of an error. -/
def message (e : RuleError) : String :=
  match e with
  | unknownOperator name => "unknown operator '" ++ name ++ "'"
  | tooDeep limit => "rule nesting exceeds the maximum depth of " ++ Text.numeral limit
  | e => "malformed rule: " ++ e.malformation?.getD ""

end RuleError

end JsonRules
