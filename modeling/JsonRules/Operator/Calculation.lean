import JsonRules.Operator.Basic
import JsonRules.Text.Slice
import JsonRules.Value.Comparison

/-!
# Calculations

What each calculation makes of the values of its arguments. None of them can fail: arguments that do
not fit the operator give the absent value, or false where a truth value is due.
-/

namespace JsonRules

/-- Whether a text has a value's string form in it, or an array a strictly equal item. -/
def Value.isIn (needle haystack : Value) : Bool :=
  match haystack with
  | .string s => Text.occursIn needle.stringForm.toList s.toList
  | .array items => items.any fun item => item.strictEquals needle
  | _ => false

namespace Calculation

/-- The argument at a position, absent if there are fewer. -/
def argument (args : List Value) (position : Nat) : Value := (args[position]?).getD .null

/-- A number that may be missing, as a value. -/
def numberOrNull (n : Option Number) : Value := (n.map Number.toValue).getD .null

/-- Whether the order of each value and the next is one that is allowed. -/
def chained (allowed : Ordering → Bool) : List Value → Bool
  | a :: b :: rest => (a.compare b).any allowed && chained allowed (b :: rest)
  | _ => true

/-- The result of an operation on the first two arguments, if both are numbers. -/
def binary? (op : Number → Number → Option Number) (args : List Value) : Option Number :=
  match (argument args 0).toNumber?, (argument args 1).toNumber? with
  | some a, some b => op a b
  | _, _ => none

/-- The items that a value contributes to a merged array. -/
def mergeItems : Value → List Value
  | .array items => items
  | v => [v]

/-- The integer that a value is for slicing, if it is a number. -/
def sliceNumber? (v : Value) : Option Int64 := v.toNumber?.map Number.toInt64

/-- The result of a calculation on the arguments that count. -/
def compute (c : Calculation) (args : List Value) : Value :=
  match c with
  | looseEqual => .bool ((argument args 0).looseEquals (argument args 1))
  | looseUnequal => .bool (!(argument args 0).looseEquals (argument args 1))
  | strictEqual => .bool ((argument args 0).strictEquals (argument args 1))
  | strictUnequal => .bool (!(argument args 0).strictEquals (argument args 1))
  | not => .bool (!(argument args 0).isTruthy)
  | truth => .bool (argument args 0).isTruthy
  | less => .bool (decide (2 ≤ args.length) && chained Ordering.isLT args)
  | lessEqual => .bool (decide (2 ≤ args.length) && chained Ordering.isLE args)
  | greater => .bool (decide (2 ≤ args.length) && chained Ordering.isGT args)
  | greaterEqual => .bool (decide (2 ≤ args.length) && chained Ordering.isGE args)
  | add => numberOrNull ((Value.toNumbers? args).map Number.sum)
  | subtract => numberOrNull ((Value.toNumbers? args).bind Number.difference?)
  | multiply => numberOrNull ((Value.toNumbers? args).bind Number.product?)
  | divide => numberOrNull (binary? Number.div? args)
  | remainder => numberOrNull (binary? Number.rem? args)
  | min => numberOrNull ((Value.toNumbers? args).bind (Number.extreme? .lt))
  | max => numberOrNull ((Value.toNumbers? args).bind (Number.extreme? .gt))
  | cat => .string (String.join (args.map Value.stringForm))
  | substr =>
    .string (String.ofList (Text.substring (argument args 0).stringForm.toList
      ((sliceNumber? (argument args 1)).getD 0) (sliceNumber? (argument args 2))))
  | contains => .bool ((argument args 0).isIn (argument args 1))
  | merge => .array (args.flatMap mergeItems)

/-- The result of a calculation on any number of arguments. -/
def apply (c : Calculation) (args : List Value) : Value := c.compute (c.arity.trim args)

end Calculation

end JsonRules
