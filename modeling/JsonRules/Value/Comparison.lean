import JsonRules.Value.Coercion

/-!
# Equality and order

Values have two equalities in rules. *Strict* equality compares values of one kind only, numbers by
their numeric value and containers item by item. *Loose* equality coerces: truth values count as
integers, an array beside a scalar counts as its string form, and a text beside a number is read as
a number. The absent value is loosely equal to itself alone, and an object to containers alone.

The *order* puts texts character by character and everything else by the numbers they count as;
values that count as no number have no order.
-/

namespace JsonRules

namespace Value

mutual

/-- Equality of values of the same kind. -/
def strictEquals : Value → Value → Bool
  | null, null => true
  | bool x, bool y => x == y
  | int x, int y => Number.equals (.int x) (.int y)
  | int x, float y => Number.equals (.int x) (.float y)
  | float x, int y => Number.equals (.float x) (.int y)
  | float x, float y => Number.equals (.float x) (.float y)
  | string x, string y => x == y
  | array x, array y => allStrictEqual x y
  | object x, object y => membersStrictEqual x y
  | _, _ => false

/-- Strict equality of lists, value by value. -/
def allStrictEqual : List Value → List Value → Bool
  | [], [] => true
  | v :: vs, w :: ws => strictEquals v w && allStrictEqual vs ws
  | _, _ => false

/-- Strict equality of members, key by key and value by value. -/
def membersStrictEqual : List (String × Value) → List (String × Value) → Bool
  | [], [] => true
  | (k, v) :: vs, (l, w) :: ws => k == l && strictEquals v w && membersStrictEqual vs ws
  | _, _ => false

end

/-- Whether the value holds other values. -/
def isContainer : Value → Bool
  | array _ | object _ => true
  | _ => false

/-- Whether two values count as equal numbers. -/
def countEqual (a b : Value) : Bool :=
  match toNumberLoose? a, toNumberLoose? b with
  | some x, some y => x.equals y
  | _, _ => false

/-- How many coercions are left until a value is compared. -/
def coercions : Value → Nat
  | bool _ | array _ => 1
  | _ => 0

/-- Equality after coercion, of one operand at a time. -/
def looseEquals : Value → Value → Bool
  | null, null => true
  | null, _ | _, null => false
  | bool x, bool y => x == y
  | bool x, b => looseEquals (int (if x then 1 else 0)) b
  | a, bool y => looseEquals a (int (if y then 1 else 0))
  | string s, string t => s == t
  | a@(array _), b@(array _) | a@(array _), b@(object _) | a@(object _), b@(array _)
  | a@(object _), b@(object _) => strictEquals a b
  | object _, _ | _, object _ => false
  | array items, b => looseEquals (string (stringForm (array items))) b
  | a, array items => looseEquals a (string (stringForm (array items)))
  | a, b => countEqual a b
termination_by a b => a.coercions + b.coercions
decreasing_by all_goals simp only [coercions]; omega

/-- The order of two values, if they have one. -/
protected def compare : Value → Value → Option Ordering
  | string s, string t => some (Ord.compare s t)
  | a, b =>
    match toNumberLoose? a, toNumberLoose? b with
    | some x, some y => x.compare y
    | _, _ => none

end Value

end JsonRules
