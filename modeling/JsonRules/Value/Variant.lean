import JsonRules.Value.Json

/-!
# Values without tags

A JSON text does not say which constructor a value was written with. It is read as a value of the
first constructor that fits, and they are tried in the order of their declaration: a number without a
fraction is an integer if it has no more than 64 bits, and a float only if not. An array or an object
fits if each of its parts fits some constructor.
-/

namespace JsonRules

namespace Value

/-- The constructors of values. -/
inductive Variant where
  | null
  | bool
  | int
  | float
  | string
  | array
  | object

/-- The constructors in the order in which they are tried. -/
def Variant.all : List Variant := [.null, .bool, .int, .float, .string, .array, .object]

mutual

/-- The value of one constructor that a tree is. -/
def fit? : Json → Variant → Option Value
  | .null, .null => some null
  | .bool b, .bool => some (bool b)
  | .integer n, .int => (int64? n).map int
  | .integer n, .float => some (float (.ofInt n))
  | .decimal x, .float => some (float x)
  | .string s, .string => some (string s)
  | .array items, .array => (allFirstFit? items).map array
  | .object members, .object => (membersFirstFit? members).map object
  | _, _ => none

/-- The values that trees fit first, if all of them fit something. -/
def allFirstFit? : List Json → Option (List Value)
  | [] => some []
  | j :: rest =>
    match Variant.all.findSome? fun variant => fit? j variant, allFirstFit? rest with
    | some v, some values => some (v :: values)
    | _, _ => none

/-- The members with the values that their trees fit first, if all of them fit something. -/
def membersFirstFit? : List (String × Json) → Option (List (String × Value))
  | [] => some []
  | (k, j) :: rest =>
    match Variant.all.findSome? fun variant => fit? j variant, membersFirstFit? rest with
    | some v, some members => some ((k, v) :: members)
    | _, _ => none

end

/-- The value that a tree fits first. -/
def firstFit? (j : Json) : Option Value := Variant.all.findSome? fun variant => fit? j variant

/-- The value that a JSON text is read as. -/
def decode? (text : String) : Option Value := (Json.read? text).bind firstFit?

end Value

end JsonRules
