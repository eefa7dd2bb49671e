import JsonRules.Decimal.Style
import JsonRules.Json.Quoted
import JsonRules.Text.Numeral
import JsonRules.Value.Members

/-!
# JSON trees

A JSON tree has what a JSON text has: numbers are integers of up to 64 bits, with or without a sign,
or floating-point numbers, and the members of an object are in order of their keys. `Json.write` is
the compact text of a tree.

Floats are written with the fewest digits that read back, with a point or an exponent so that they
read back as floats. A number that is not finite has no text in JSON and is written as null.
-/

namespace JsonRules

/-- A JSON tree. -/
inductive Json where
  /-- The literal null. -/
  | null
  /-- The literals true and false. -/
  | bool (b : Bool)
  /-- An integer between `-2 ^ 63` and `2 ^ 64`. -/
  | integer (n : Int)
  /-- Any other number. -/
  | decimal (x : Binary64)
  /-- A string. -/
  | string (s : String)
  /-- An array. -/
  | array (items : List Json)
  /-- An object, its members in order of their keys. -/
  | object (members : List (String × Json))

instance : Inhabited Json := ⟨.null⟩

namespace Json

/-- Floats are positional from `10 ^ (-5)` to below `10 ^ 16` and have an exponent elsewhere; those
without a fraction keep their point, and of two equally near decimals the even one is taken. -/
def style : Decimal.Style where
  positional := fun exponent => decide (-5 ≤ exponent ∧ exponent ≤ 15)
  keepsPoint := true
  tie := .toEven

/-- The text of a float. -/
def decimalText (x : Binary64) : String :=
  if x.isFinite then String.ofList (style.write x) else "null"

/-- The text of an array from the texts of its items. -/
def arrayText (items : List String) : String := "[" ++ ",".intercalate items ++ "]"

/-- The text of an object from the texts of its members. -/
def objectText (members : List String) : String :=
  "\x7b" ++ ",".intercalate members ++ "\x7d"

/-- The text of a member. -/
def memberText (key value : String) : String := quoted key ++ ":" ++ value

mutual

/-- The compact text of a tree. -/
def write : Json → String
  | null => "null"
  | bool b => if b then "true" else "false"
  | integer n => String.ofList (Text.writeInt n)
  | decimal x => decimalText x
  | string s => quoted s
  | array items => arrayText (allWrite items)
  | object members => objectText (membersWrite members)

/-- The texts of items. -/
def allWrite : List Json → List String
  | [] => []
  | j :: rest => write j :: allWrite rest

/-- The texts of members. -/
def membersWrite : List (String × Json) → List String
  | [] => []
  | (k, j) :: rest => memberText k (write j) :: membersWrite rest

end

end Json

end JsonRules
