import JsonRules.Text.Quoted
import JsonRules.Text.Numeral

/-!
# Operators

The operators of the rule language and their names. *Eager* operators combine the values of their
arguments: most of them are calculations, which depend on nothing else and can therefore be carried
out ahead of evaluation; inquiries also look at the data, and `log` has an effect. *Control*
operators decide which of their arguments are evaluated, how often and against which data.

An operator of fixed arity ignores the values of surplus arguments, and reads arguments that are not
there as absent.
-/

namespace JsonRules

/-- The operators whose result depends on the values of their arguments alone. -/
inductive Calculation where
  | looseEqual
  | looseUnequal
  | strictEqual
  | strictUnequal
  | not
  | truth
  | less
  | lessEqual
  | greater
  | greaterEqual
  | add
  | subtract
  | multiply
  | divide
  | remainder
  | min
  | max
  | cat
  | substr
  | contains
  | merge
deriving DecidableEq

/-- The operators that look at the data besides their arguments. -/
inductive Inquiry where
  /-- Which of some keys the data do not have. -/
  | missing
  /-- The same, unless enough of the keys are there. -/
  | missingSome
deriving DecidableEq

/-- The operators that combine the values of all their arguments. -/
inductive Eager where
  /-- An operator that depends on its arguments alone. -/
  | calculation (c : Calculation)
  /-- An operator that also looks at the data. -/
  | inquiry (q : Inquiry)
  /-- Logs its argument and returns it. -/
  | log
deriving DecidableEq

/-- The operators that decide what is evaluated. -/
inductive Control where
  /-- The first argument that counts as false, or the last. -/
  | and
  /-- The first argument that counts as true, or the last. -/
  | or
  /-- A chain of conditions and branches. -/
  | ifElse
  /-- The other name of a chain of conditions and branches. -/
  | ternary
  /-- An array item by item. -/
  | map
  /-- The items of an array that pass a test. -/
  | filter
  /-- The items of an array combined one after another. -/
  | reduce
  /-- Whether all items of an array pass a test. -/
  | all
  /-- Whether some item of an array passes a test. -/
  | any
  /-- Whether no item of an array passes a test. -/
  | notAny
deriving DecidableEq

/-- An operator of the rule language. -/
inductive Operator where
  /-- An operator that combines the values of its arguments. -/
  | eager (op : Eager)
  /-- An operator that decides what is evaluated. -/
  | control (op : Control)
deriving DecidableEq

/-- How many arguments an operator looks at. -/
inductive Arity where
  /-- At most so many. -/
  | fixed (n : Nat)
  /-- All there are. -/
  | variadic
deriving DecidableEq

/-- Whether an operator takes the values of its arguments or decides about their evaluation. -/
inductive Strategy where
  /-- All arguments are evaluated first. -/
  | eager
  /-- Arguments are evaluated as needed. -/
  | lazy
deriving DecidableEq

/-- The arguments that count. -/
def Arity.trim {α : Type} : Arity → List α → List α
  | fixed n, args => args.take n
  | variadic, args => args

/-- The arity in the notation of `Operator.describe`. -/
def Arity.describe : Arity → String
  | fixed n => "Fixed(" ++ Text.numeral n ++ ")"
  | variadic => "Variadic"

/-- The word for a strategy. -/
def Strategy.name : Strategy → String
  | eager => "eager"
  | lazy => "lazy"

/-- The strategy in the notation of `Operator.describe`. -/
def Strategy.describe : Strategy → String
  | eager => "Eager"
  | lazy => "Lazy"

/-- The name of a calculation in rules. -/
def Calculation.name : Calculation → String
  | looseEqual => "=="
  | looseUnequal => "!="
  | strictEqual => "==="
  | strictUnequal => "!=="
  | not => "!"
  | truth => "!!"
  | less => "<"
  | lessEqual => "<="
  | greater => ">"
  | greaterEqual => ">="
  | add => "+"
  | subtract => "-"
  | multiply => "*"
  | divide => "/"
  | remainder => "%"
  | min => "min"
  | max => "max"
  | cat => "cat"
  | substr => "substr"
  | contains => "in"
  | merge => "merge"

/-- How many arguments a calculation looks at. -/
def Calculation.arity : Calculation → Arity
  | not | truth => .fixed 1
  | looseEqual | looseUnequal | strictEqual | strictUnequal | greater | greaterEqual | subtract
  | divide | remainder | contains => .fixed 2
  | less | lessEqual | substr => .fixed 3
  | add | multiply | min | max | cat | merge => .variadic

/-- The name of an inquiry in rules. -/
def Inquiry.name : Inquiry → String
  | missing => "missing"
  | missingSome => "missing_some"

/-- How many arguments an inquiry looks at. -/
def Inquiry.arity : Inquiry → Arity
  | missing => .variadic
  | missingSome => .fixed 2

/-- The name of a control operator in rules. -/
def Control.name : Control → String
  | and => "and"
  | or => "or"
  | ifElse => "if"
  | ternary => "?:"
  | map => "map"
  | filter => "filter"
  | reduce => "reduce"
  | all => "all"
  | any => "some"
  | notAny => "none"

/-- The name of an eager operator in rules. -/
def Eager.name : Eager → String
  | calculation c => c.name
  | inquiry q => q.name
  | log => "log"

/-- How many arguments an eager operator looks at. -/
def Eager.arity : Eager → Arity
  | calculation c => c.arity
  | inquiry q => q.arity
  | log => .fixed 1

namespace Operator

/-- The name of an operator in rules. -/
def name : Operator → String
  | eager op => op.name
  | control op => op.name

/-- How many arguments an operator looks at. -/
def arity : Operator → Arity
  | eager op => op.arity
  | control _ => .variadic

/-- Whether an operator takes values or decides about evaluation. -/
def strategy : Operator → Strategy
  | eager _ => .eager
  | control _ => .lazy

/-- All operators. -/
def all : List Operator :=
  ([.looseEqual, .looseUnequal, .strictEqual, .strictUnequal, .not, .truth, .less, .lessEqual,
    .greater, .greaterEqual, .add, .subtract, .multiply, .divide, .remainder, .min, .max, .cat,
    .substr, .contains, .merge] : List Calculation).map (.eager ∘ .calculation)
  ++ ([.missing, .missingSome] : List Inquiry).map (.eager ∘ .inquiry)
  ++ [.eager .log]
  ++ ([.and, .or, .ifElse, .ternary, .map, .filter, .reduce, .all, .any, .notAny]
      : List Control).map .control

/-- The operator with a name. -/
def lookup? (name : String) : Option Operator := all.find? fun op => op.name == name

/-- What there is to know about an operator, field by field. -/
def describe (op : Operator) : String :=
  "Operator \x7b name: " ++ Text.quoted op.name ++ ", arity: " ++ op.arity.describe
    ++ ", strategy: " ++ op.strategy.describe ++ " \x7d"

/-- The list of operators is complete. -/
theorem mem_all (op : Operator) : op ∈ all := by
  match op with
  | .eager (.calculation c) => cases c <;> decide
  | .eager (.inquiry q) => cases q <;> decide
  | .eager .log => decide
  | .control c => cases c <;> decide

/-- Every operator is found by its name. -/
theorem lookup?_name (op : Operator) : lookup? op.name = some op := by
  match op with
  | .eager (.calculation c) => cases c <;> decide
  | .eager (.inquiry q) => cases q <;> decide
  | .eager .log => decide
  | .control c => cases c <;> decide

/-- What is found under a name has that name. -/
theorem name_of_lookup? {name : String} {op : Operator} (h : lookup? name = some op) :
    op.name = name := by
  simpa using List.find?_some h

end Operator

/-- The name under which rules refer to the data. It is not an operator. -/
def variableName : String := "var"

theorem lookup?_variableName : Operator.lookup? variableName = none := by decide

end JsonRules
