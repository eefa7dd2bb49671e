import JsonRules.Binary64.Basic
import JsonRules.Ratio

/-!
# Rounding to double precision

`ofRatio` rounds a quotient of natural numbers to the nearest double-precision number, a half going
to the neighbour with the even significand. All rounding in this library goes through it: integers
and decimals are quotients, and so are the exact results of the arithmetic operations.

The rounding grid of a value between `2 ^ e` and `2 ^ (e + 1)` has spacing `2 ^ (e - 52)`, but never
less than `2 ^ (-1074)`. With the value rounded to `n` grid points of spacing `2 ^ q`, the magnitude
of the result is `(q + 1074) · 2 ^ 52 + n`: below `2 ^ 52` points this is a subnormal number, and a
value that rounds up to the next power of two carries into the exponent bits by itself.
-/

namespace JsonRules

namespace Binary64

/-- The double-precision number nearest to a quotient, with the given sign. Quotients beyond the
largest finite number become the infinity. -/
def ofRatio (negative : Bool) (r : Ratio) : Binary64 :=
  if r.num = 0 then zero negative
  else
    let q := max (-1074) (r.exponent - 52)
    ofMagnitude negative
      (min infinityMagnitude
        ((q + 1074).toNat * exponentUnit + (r.scale 2 (-q)).roundHalfEven))

/-- The double-precision number nearest to `n · 2 ^ e`, with the given sign. -/
def ofScaled (negative : Bool) (n : Nat) (e : Int) : Binary64 :=
  ofRatio negative ((Ratio.ofNat n).scale 2 e)

/-- The double-precision number nearest to an integer. -/
def ofInt (n : Int) : Binary64 := ofRatio (decide (n < 0)) (.ofNat n.natAbs)

/-- The absolute value of a finite number. -/
def ratio (x : Binary64) : Ratio := (Ratio.ofNat x.significand).scale 2 x.exponent

/-- The absolute value of a finite number without its fraction. -/
def integralPart (x : Binary64) : Nat := x.ratio.floor

/-- Whether a finite number has no fraction. -/
def isIntegral (x : Binary64) : Bool := x.ratio.rest == 0

/-- The least integer that is not below the number; infinities and NaN stay as they are. -/
def ceil (x : Binary64) : Binary64 :=
  if !x.isFinite then x
  else
    let up := if x.isIntegral || x.isNegative then 0 else 1
    ofRatio x.isNegative (.ofNat (x.integralPart + up))

/-- The number without its fraction as a 64-bit integer. Numbers out of range become the nearest
end of the range, and NaN becomes zero. -/
def toInt64 (x : Binary64) : Int64 :=
  if x.isNaN then 0
  else if x.isNegative then
    if x.isInfinite || decide (signUnit ≤ x.integralPart) then Int64.minValue
    else Int64.ofInt (-x.integralPart)
  else if x.isInfinite || decide (signUnit ≤ x.integralPart) then Int64.maxValue
  else Int64.ofInt x.integralPart

end Binary64

end JsonRules
