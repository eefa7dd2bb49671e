import JsonRules.Integer
import JsonRules.Json.Reader
import JsonRules.Value.Text

/-!
# Values and JSON

A value is read from a JSON text by way of the tree of the text (`Value.ofJson`), in which integers
beyond 64 bits with sign become floats. In the other direction a value has a tree (`Value.toJson`)
and a text of its own (`Value.jsonText`); floats that are not finite become null in both.
-/

namespace JsonRules

namespace Value

/-- An integer of a tree, a float if it has more than 64 bits with its sign. -/
def ofJsonInteger (n : Int) : Value :=
  match int64? n with
  | some i => int i
  | none => float (.ofInt n)

mutual

/-- The value of a tree. -/
def ofJson : Json → Value
  | .null => null
  | .bool b => bool b
  | .integer n => ofJsonInteger n
  | .decimal x => float x
  | .string s => string s
  | .array items => array (allOfJson items)
  | .object members => object (membersOfJson members)

/-- The values of trees. -/
def allOfJson : List Json → List Value
  | [] => []
  | j :: rest => ofJson j :: allOfJson rest

/-- The values of members. -/
def membersOfJson : List (String × Json) → List (String × Value)
  | [] => []
  | (k, j) :: rest => (k, ofJson j) :: membersOfJson rest

end

mutual

/-- The tree of a value. -/
def toJson : Value → Json
  | null => .null
  | bool b => .bool b
  | int n => .integer n.toInt
  | float x => if x.isFinite then .decimal x else .null
  | string s => .string s
  | array items => .array (allToJson items)
  | object members => .object (membersToJson members)

/-- The trees of values. -/
def allToJson : List Value → List Json
  | [] => []
  | v :: rest => toJson v :: allToJson rest

/-- The trees of members. -/
def membersToJson : List (String × Value) → List (String × Json)
  | [] => []
  | (k, v) :: rest => (k, toJson v) :: membersToJson rest

end

mutual

/-- The compact JSON text of a value. -/
def jsonText : Value → String
  | null => "null"
  | bool b => boolText b
  | int n => intText n
  | float x => Json.decimalText x
  | string s => Json.quoted s
  | array items => Json.arrayText (allJsonText items)
  | object members => Json.objectText (membersJsonText members)

/-- The JSON texts of values. -/
def allJsonText : List Value → List String
  | [] => []
  | v :: rest => jsonText v :: allJsonText rest

/-- The JSON texts of members. -/
def membersJsonText : List (String × Value) → List String
  | [] => []
  | (k, v) :: rest => Json.memberText k (jsonText v) :: membersJsonText rest

end

/-- The value of a JSON text. -/
def ofJsonText? (text : String) : Option Value := (Json.read? text).map ofJson

end Value

end JsonRules
