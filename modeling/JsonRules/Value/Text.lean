import JsonRules.Decimal.Style
import JsonRules.Text.Numeral
import JsonRules.Text.Quoted
import JsonRules.Value.Basic

/-!
# Texts of values

Two texts of a value. The *string form* is what a value reads as where a text is wanted: a text is
its own string form, an array is the string forms of its items with commas between them (an absent
item gives nothing), and objects all look alike. The *display* shows a value without ambiguity:
texts and keys are quoted, and a float without a fraction has a zero behind its point to tell it
from an integer.

Floats never have an exponent in either text.
-/

namespace JsonRules

/-- Floats are written positionally whatever their size, without a point if they have no fraction,
and the larger of two equally near decimals is taken. -/
def plainStyle : Decimal.Style where
  positional := fun _ => true
  keepsPoint := false
  tie := .up

namespace Binary64

/-- The text of a number that is not finite. -/
def nonFiniteText (x : Binary64) : String :=
  if x.isNaN then "NaN" else if x.isNegative then "-inf" else "inf"

/-- The number in positional notation. -/
def plainText (x : Binary64) : String :=
  if x.isFinite then String.ofList (plainStyle.write x) else x.nonFiniteText

/-- The number in positional notation with a point: exactly if it has no fraction, and otherwise
with the fewest digits that read back. -/
def display (x : Binary64) : String :=
  if x.isFinite && x.isIntegral then String.ofList (Decimal.writeIntegral x) else x.plainText

end Binary64

/-- The words for the truth values. -/
def boolText (b : Bool) : String := if b then "true" else "false"

/-- The decimal numeral of an integer. -/
def intText (n : Int64) : String := String.ofList (Text.writeInt n.toInt)

namespace Value

mutual

/-- The text that a value reads as where a text is wanted. -/
def stringForm : Value → String
  | null => "null"
  | bool b => boolText b
  | int n => intText n
  | float x => x.plainText
  | string s => s
  | array items => ",".intercalate (itemForms items)
  | object _ => "[object Object]"

/-- The string forms of the items of an array, in which absent values are empty. -/
def itemForms : List Value → List String
  | [] => []
  | null :: rest => "" :: itemForms rest
  | v :: rest => stringForm v :: itemForms rest

end

mutual

/-- The text that shows a value. -/
def display : Value → String
  | null => "null"
  | bool b => boolText b
  | int n => intText n
  | float x => x.display
  | string s => Text.quoted s
  | array items => "[" ++ ",".intercalate (displayItems items) ++ "]"
  | object members => "\x7b" ++ ",".intercalate (displayMembers members) ++ "\x7d"

/-- The texts of the items of an array. -/
def displayItems : List Value → List String
  | [] => []
  | v :: rest => display v :: displayItems rest

/-- The texts of the members of an object, a colon between key and value. -/
def displayMembers : List (String × Value) → List String
  | [] => []
  | (k, v) :: rest => (Text.quoted k ++ ":" ++ display v) :: displayMembers rest

end

end Value

end JsonRules
