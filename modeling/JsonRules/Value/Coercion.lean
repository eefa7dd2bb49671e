import JsonRules.Text.Blank
import JsonRules.Value.Number
import JsonRules.Value.Text

/-!
# Coercion

How values are read as truth values and as numbers. Arithmetic reads only numbers and numeric texts
as numbers (`toNumber?`). Comparison is more generous (`toNumberLoose?`): absent counts as zero, a
truth value as zero or one, a blank text as zero, and an array as its string form.
-/

namespace JsonRules

namespace Value

/-- Absent, false, zero, NaN, the empty text and the empty array count as false, everything else as
true. -/
def isTruthy : Value → Bool
  | null => false
  | bool b => b
  | int n => n != 0
  | float x => !x.isZero && !x.isNaN
  | string s => !s.isEmpty
  | array items => !items.isEmpty
  | object _ => true

/-- The number that a text is, blanks around it aside: an integer if it is one in range, and
otherwise a finite float. -/
def numberOfText? (s : String) : Option Number :=
  let cs := Text.trim s.toList
  match Text.readInt64? cs with
  | some n => some (.int n)
  | none => (Text.readBinary64? cs).map .float

/-- The number that a value is for arithmetic. -/
def toNumber? : Value → Option Number
  | int n => some (.int n)
  | float x => some (.float x)
  | string s => numberOfText? s
  | _ => none

/-- The number that a text counts as in a comparison, a blank one as zero. -/
def looseNumberOfText? (s : String) : Option Number :=
  if (Text.trim s.toList).isEmpty then some (.int 0) else numberOfText? s

/-- The number that a value counts as in a comparison. -/
def toNumberLoose? : Value → Option Number
  | null => some (.int 0)
  | bool b => some (.int (if b then 1 else 0))
  | int n => some (.int n)
  | float x => some (.float x)
  | string s => looseNumberOfText? s
  | array items => looseNumberOfText? (stringForm (array items))
  | object _ => none

/-- The numbers that values are for arithmetic, if all of them are. -/
def toNumbers? (values : List Value) : Option (List Number) := values.mapM toNumber?

end Value

end JsonRules
