import JsonRules.Operator.Basic
import JsonRules.Path
import JsonRules.Rule.Error

/-!
# Forms of rules

What a value says when it stands in the place of a rule. An object with a single key is a variable
or the call of an operator; every other value, arrays and the empty object included, stands for
itself. Only the value itself is looked at here, not the rules inside it.

The argument of a variable is a path or a list of a path and a default, both of which may be left
out. A path that is an object is a rule of its own, evaluated to find the key. The arguments of an
operator are a list, or a single value that is not a list.
-/

namespace JsonRules

/-- Where a variable looks in the data. -/
inductive Key where
  /-- At a path that is known, as text. -/
  | path (text : String)
  /-- At the path named by the value of a rule. -/
  | computed (rule : Value)

/-- What a rule is. -/
inductive Form where
  /-- The value itself. -/
  | literal
  /-- The value of a variable, or of a default if the data have none. -/
  | reference (key : Key) (default? : Option Value)
  /-- An operator and its arguments. -/
  | call (op : Operator) (args : List Value)

namespace Form

/-- The path and the default in the argument of a variable. -/
def variableParts (body : Value) : Except RuleError (Value × Option Value) :=
  match body with
  | .array [] => .ok (.null, none)
  | .array [path] => .ok (path, none)
  | .array [path, default] => .ok (path, some default)
  | .array items => .error (.surplusVariableArguments items.length)
  | path => .ok (path, none)

/-- The key that a value in the place of a path is. -/
def keyOf (path : Value) : Except RuleError Key :=
  match path with
  | .object _ => .ok (.computed path)
  | path =>
    match path.pathText? with
    | some text => .ok (.path text)
    | none => .error (.notAPath path)

/-- The form of a variable with an argument. -/
def ofVariable (body : Value) : Except RuleError Form := do
  let (path, default?) ← variableParts body
  let key ← keyOf path
  return .reference key default?

/-- The arguments that the body of a call gives. -/
def arguments : Value → List Value
  | .array items => items
  | single => [single]

/-- The form of an object with a single member. -/
def ofMember (name : String) (body : Value) : Except RuleError Form :=
  if name = variableName then ofVariable body
  else
    match Operator.lookup? name with
    | some op => .ok (.call op (arguments body))
    | none => .error (.unknownOperator name)

/-- The form of a value in the place of a rule. -/
def ofValue (rule : Value) : Except RuleError Form :=
  match rule with
  | .object [(name, body)] => ofMember name body
  | .object (first :: second :: rest) =>
    .error (.severalKeys ((first :: second :: rest).map Prod.fst))
  | _ => .ok .literal

end Form

end JsonRules
