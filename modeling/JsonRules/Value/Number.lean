import JsonRules.Integer
import JsonRules.Binary64.Arithmetic
import JsonRules.Value.Basic

/-!
# Numbers

A number is an integer or a float. Sums, differences, products and quotients of two integers are
integers as long as the exact result is in range, and remainders as long as the quotient is;
otherwise, and whenever a float takes part, they are computed in double precision. Quotients are
truncated toward zero and remainders take the sign of the dividend. Nothing can be divided by zero.

Two integers are compared exactly, every other pair in double precision.
-/

namespace JsonRules

/-- A value that can be calculated with. -/
inductive Number where
  /-- A 64-bit integer. -/
  | int (n : Int64)
  /-- A double-precision number. -/
  | float (x : Binary64)
deriving DecidableEq

namespace Number

/-- The number in double precision. -/
def toBinary64 : Number → Binary64
  | int n => .ofInt n.toInt
  | float x => x

/-- The number as a value; what is not finite is absent. -/
def toValue : Number → Value
  | int n => .int n
  | float x => .ofFinite x

/-- The number without its fraction as a 64-bit integer. -/
def toInt64 : Number → Int64
  | int n => n
  | float x => x.toInt64

/-- The result of `exact` on two integers for which it has one, and otherwise of `rounded` in double
precision. -/
def combine (exact : Int64 → Int64 → Option Int64) (rounded : Binary64 → Binary64 → Binary64) :
    Number → Number → Number
  | int a, int b =>
    match exact a b with
    | some n => int n
    | none => float (rounded (.ofInt a.toInt) (.ofInt b.toInt))
  | a, b => float (rounded a.toBinary64 b.toBinary64)

/-- The sum. -/
def add : Number → Number → Number :=
  combine (fun a b => int64? (a.toInt + b.toInt)) Binary64.add

/-- The difference. -/
def sub : Number → Number → Number :=
  combine (fun a b => int64? (a.toInt - b.toInt)) Binary64.sub

/-- The product. -/
def mul : Number → Number → Number :=
  combine (fun a b => int64? (a.toInt * b.toInt)) Binary64.mul

/-- The opposite number. -/
def neg : Number → Number
  | int n =>
    match int64? (-n.toInt) with
    | some m => int m
    | none => float (Binary64.ofInt n.toInt).neg
  | float x => float x.neg

/-- The quotient of two integers truncated toward zero, if it is in range. -/
def quotient? (a b : Int64) : Option Int64 := int64? (a.toInt.tdiv b.toInt)

/-- The remainder of two integers whose quotient is in range. -/
def remainder? (a b : Int64) : Option Int64 :=
  (quotient? a b).bind fun _ => int64? (a.toInt.tmod b.toInt)

/-- The quotient; there is none by zero. -/
def div? (a b : Number) : Option Number :=
  if b.toBinary64.isZero then none else some (combine quotient? Binary64.div a b)

/-- The remainder; there is none by zero. -/
def rem? (a b : Number) : Option Number :=
  if b.toBinary64.isZero then none else some (combine remainder? Binary64.rem a b)

/-- The order of two numbers, and nothing if one of them is NaN. -/
protected def compare : Number → Number → Option Ordering
  | int a, int b => some (Ord.compare a.toInt b.toInt)
  | a, b => a.toBinary64.compare b.toBinary64

/-- Whether two numbers compare as equal. -/
def equals (a b : Number) : Bool := a.compare b == some .eq

/-- The sum of numbers, from left to right. -/
def sum (numbers : List Number) : Number := numbers.foldl add (int 0)

/-- The product of at least one number, from left to right. -/
def product? : List Number → Option Number
  | [] => none
  | n :: rest => some (rest.foldl mul n)

/-- The difference of two numbers, or the opposite of one. -/
def difference? : List Number → Option Number
  | [a] => some a.neg
  | [a, b] => some (a.sub b)
  | _ => none

/-- The first of some numbers that no later one is preferred to, a later number being preferred to
the best so far if it compares with it as given. -/
def extreme? (preferred : Ordering) : List Number → Option Number
  | [] => none
  | n :: rest =>
    some (rest.foldl (fun best m => if m.compare best = some preferred then m else best) n)

end Number

end JsonRules
