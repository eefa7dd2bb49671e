import JsonRules.Binary64.Rounding

/-!
# Decimal fractions

A decimal is a coefficient times a power of ten. `Decimal.toBinary64` reads one as the nearest
double-precision number. Exponents may be astronomically large in a text, so a decimal whose first
digit lies beyond the range of double precision is decided by that position alone and no power of
ten is computed for it.
-/

namespace JsonRules

/-- The number `coefficient · 10 ^ exponent`. -/
structure Decimal where
  /-- The digits as an integer. -/
  coefficient : Nat
  /-- The power of ten of the last digit. -/
  exponent : Int
deriving DecidableEq

namespace Decimal

/-- The digits of the coefficient, the first of them first. -/
def digits (d : Decimal) : List Char := Nat.toDigits 10 d.coefficient

/-- The position of the decimal point behind the first digit's place: a positive decimal lies
between `10 ^ (point - 1)` and `10 ^ point`. -/
def point (d : Decimal) : Int := d.digits.length + d.exponent

/-- The decimal as a quotient of natural numbers. -/
def ratio (d : Decimal) : Ratio := (Ratio.ofNat d.coefficient).scale 10 d.exponent

/-- The double-precision number nearest to the decimal, with the given sign. From `10 ^ 309` on that
is the infinity, and below `10 ^ (-324)` it is zero. -/
def toBinary64 (negative : Bool) (d : Decimal) : Binary64 :=
  if d.coefficient = 0 then .zero negative
  else if 309 < d.point then .infinity negative
  else if d.point ≤ -324 then .zero negative
  else .ofRatio negative d.ratio

/-- The exact value of a finite double-precision number, sign aside. Every such number has a finite
decimal expansion because two divides ten. -/
def ofBinary64 (x : Binary64) : Decimal :=
  ⟨x.significand * power 2 x.exponent * power 5 (-x.exponent), min x.exponent 0⟩

end Decimal

end JsonRules
