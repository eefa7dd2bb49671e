import JsonRules.Binary64.Rounding

/-!
# Double-precision arithmetic

Each operation on finite numbers computes the exact rational result and rounds it once. What is left
are the cases without an exact result and the signs of zeros: a sum that cancels is positive zero
unless both operands are negative, products and quotients take the sign of the operands together,
and a remainder takes the sign of its dividend.
-/

namespace JsonRules

namespace Binary64

/-- The sum, rounded once. -/
def add (x y : Binary64) : Binary64 :=
  if x.isNaN || y.isNaN then nan
  else if x.isInfinite then if y.isInfinite && x.isNegative != y.isNegative then nan else x
  else if y.isInfinite then y
  else
    let e := min x.exponent y.exponent
    let sum := x.signedSignificand * power 2 (x.exponent - e)
      + y.signedSignificand * power 2 (y.exponent - e)
    if sum = 0 then zero (x.isNegative && y.isNegative)
    else ofScaled (decide (sum < 0)) sum.natAbs e

/-- The difference, rounded once. -/
def sub (x y : Binary64) : Binary64 := x.add y.neg

/-- The product, rounded once. -/
def mul (x y : Binary64) : Binary64 :=
  let negative := x.isNegative != y.isNegative
  if x.isNaN || y.isNaN then nan
  else if x.isInfinite || y.isInfinite then
    if x.isZero || y.isZero then nan else infinity negative
  else ofScaled negative (x.significand * y.significand) (x.exponent + y.exponent)

/-- The quotient, rounded once. -/
def div (x y : Binary64) : Binary64 :=
  let negative := x.isNegative != y.isNegative
  if x.isNaN || y.isNaN then nan
  else if x.isInfinite then if y.isInfinite then nan else infinity negative
  else if y.isInfinite then zero negative
  else if y.isZero then if x.isZero then nan else infinity negative
  else ofRatio negative (Ratio.scale ⟨x.significand, y.significand⟩ 2 (x.exponent - y.exponent))

/-- The remainder of the quotient truncated to an integer, with the sign of the dividend. The
remainder of two finite numbers is always exact. -/
def rem (x y : Binary64) : Binary64 :=
  if x.isNaN || y.isNaN || x.isInfinite || y.isZero then nan
  else if y.isInfinite then x
  else
    let e := min x.exponent y.exponent
    ofScaled x.isNegative
      ((x.significand * power 2 (x.exponent - e)) % (y.significand * power 2 (y.exponent - e))) e

end Binary64

end JsonRules
