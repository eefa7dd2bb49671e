import JsonRules.Decimal.Basic

/-!
# Shortest decimals

The shortest decimal of a double-precision number is, of the decimals that read back as the number,
one with the fewest digits, and of those the nearest. It is found by trying one digit, then two, and
so on: on each decimal grid only the two neighbours of the number can be the answer, since the
numbers that read back form an interval around it. Seventeen digits always suffice.

Two neighbours can be equally near. Formats differ in which of them they print, so the rule for ties
is a parameter.
-/

namespace JsonRules

namespace Decimal

/-- Which of two equally near decimals is taken. -/
inductive Tie where
  /-- The one whose last digit is even. -/
  | toEven
  /-- The larger one. -/
  | up
deriving DecidableEq

/-- Whether the tie between a coefficient and the next larger one goes to the larger. -/
def Tie.roundsUp (tie : Tie) (lower : Nat) : Bool :=
  match tie with
  | .toEven => lower % 2 == 1
  | .up => true

/-- The nearer of the two neighbours of `x` on the grid of spacing `10 ^ exponent` that read back as
`x`. -/
def neighbour? (tie : Tie) (x : Binary64) (exponent : Int) : Option Decimal :=
  let scaled := x.ratio.scale 10 (-exponent)
  let lower : Decimal := ⟨scaled.floor, exponent⟩
  let upper : Decimal := ⟨scaled.floor + 1, exponent⟩
  match decide (lower.toBinary64 x.isNegative = x), decide (upper.toBinary64 x.isNegative = x) with
  | false, false => none
  | true, false => some lower
  | false, true => some upper
  | true, true =>
    match scaled.half with
    | .lt => some lower
    | .eq => if tie.roundsUp lower.coefficient then some upper else some lower
    | .gt => some upper

/-- The first neighbour that reads back, from `count` digits upwards; the exact value if `fuel`
grids have none. The first digit stands before `point`. -/
def searchShortest (tie : Tie) (x : Binary64) (point : Int) : (fuel count : Nat) → Decimal
  | 0, _ => ofBinary64 x
  | fuel + 1, count =>
    match neighbour? tie x (point - count) with
    | some d => d
    | none => searchShortest tie x point fuel (count + 1)

/-- The shortest decimal that reads back as a finite number other than zero, sign aside. -/
def shortest (tie : Tie) (x : Binary64) : Decimal := searchShortest tie x x.ratio.point 17 1

end Decimal

end JsonRules
