import JsonRules.Binary64.Basic
import JsonRules.Value.Members

/-!
# Values

Rules and the data they are applied to are values of one shape: those of JSON, with integers and
floating-point numbers kept apart. The members of an object are in order of their keys; that this
holds throughout a value is `Value.WellFormed`. Floating-point numbers need not be finite.

`Value.same` compares two values constructor by constructor. It is finer than any equality of the
rule language, except that floats in it are compared as numbers: the two zeros are the same and NaN
differs from itself.
-/

namespace JsonRules

/-- A rule, or the data of a rule. -/
inductive Value where
  /-- The absent value. -/
  | null
  /-- A truth value. -/
  | bool (b : Bool)
  /-- A 64-bit integer. -/
  | int (n : Int64)
  /-- A double-precision number. -/
  | float (x : Binary64)
  /-- A text. -/
  | string (s : String)
  /-- A list of values. -/
  | array (items : List Value)
  /-- Values under keys, in strictly increasing order of keys. -/
  | object (members : List (String × Value))

instance : Inhabited Value := ⟨.null⟩

/-- What a value is a value of. Integers and floats are both numbers. -/
inductive Kind where
  | null
  | bool
  | number
  | string
  | array
  | object
deriving DecidableEq

/-- The word for a kind. -/
def Kind.name : Kind → String
  | .null => "null"
  | .bool => "bool"
  | .number => "number"
  | .string => "string"
  | .array => "array"
  | .object => "object"

namespace Value

/-- The kind of a value. -/
def kind : Value → Kind
  | null => .null
  | bool _ => .bool
  | int _ | float _ => .number
  | string _ => .string
  | array _ => .array
  | object _ => .object

/-- Whether the value is the absent one. -/
def isNull : Value → Bool
  | null => true
  | _ => false

/-- The text that a value is. -/
def asString? : Value → Option String
  | string s => some s
  | _ => none

/-- The items of an array. -/
def asArray? : Value → Option (List Value)
  | array items => some items
  | _ => none

/-- The members of an object. -/
def asObject? : Value → Option (List (String × Value))
  | object members => some members
  | _ => none

/-- The items of an array; every other value has none. -/
def items : Value → List Value
  | array items => items
  | _ => []

/-- The value of a key in an object. -/
def member? (key : String) : Value → Option Value
  | object members => Members.find? key members
  | _ => none

/-- The object with a single member. -/
def singleton (key : String) (value : Value) : Value := object [(key, value)]

/-- A floating-point result as a value: what is not finite is absent. -/
def ofFinite (x : Binary64) : Value := if x.isFinite then float x else null

mutual

/-- Every object in the value has its members in order. -/
def WellFormed : Value → Prop
  | array items => AllWellFormed items
  | object members => Members.Sorted members ∧ MembersWellFormed members
  | _ => True

/-- Every object in a list of values has its members in order. -/
def AllWellFormed : List Value → Prop
  | [] => True
  | v :: rest => WellFormed v ∧ AllWellFormed rest

/-- Every object among the values of members has its own members in order. -/
def MembersWellFormed : List (String × Value) → Prop
  | [] => True
  | (_, v) :: rest => WellFormed v ∧ MembersWellFormed rest

end

mutual

/-- The number of arrays and objects inside one another, at most. -/
def nesting : Value → Nat
  | array items => allNesting items + 1
  | object members => membersNesting members + 1
  | _ => 0

/-- The greatest nesting in a list of values. -/
def allNesting : List Value → Nat
  | [] => 0
  | v :: rest => max (nesting v) (allNesting rest)

/-- The greatest nesting among the values of members. -/
def membersNesting : List (String × Value) → Nat
  | [] => 0
  | (_, v) :: rest => max (nesting v) (membersNesting rest)

end

mutual

/-- Whether two values have the same constructors throughout and the same contents, floats compared
as numbers. -/
def same : Value → Value → Bool
  | null, null => true
  | bool x, bool y => x == y
  | int x, int y => x == y
  | float x, float y => x.equals y
  | string x, string y => x == y
  | array x, array y => allSame x y
  | object x, object y => membersSame x y
  | _, _ => false

/-- Whether two lists are the same value by value. -/
def allSame : List Value → List Value → Bool
  | [], [] => true
  | v :: vs, w :: ws => same v w && allSame vs ws
  | _, _ => false

/-- Whether two lists of members are the same key by key and value by value. -/
def membersSame : List (String × Value) → List (String × Value) → Bool
  | [], [] => true
  | (k, v) :: vs, (l, w) :: ws => k == l && same v w && membersSame vs ws
  | _, _ => false

end

end Value

end JsonRules
