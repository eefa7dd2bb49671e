/-!
# Quotients of natural numbers

Exact positive values are kept as a numerator and a denominator, which need not be reduced. They can
be scaled by powers of a base, positive or negative, and rounded to natural numbers.
-/

namespace JsonRules

/-- The power of a base with a natural exponent, and one for a negative exponent. A value is
multiplied by `base ^ e`, whatever the sign of `e`, by multiplying its numerator by `power base e`
and its denominator by `power base (-e)`. -/
def power (base : Nat) (e : Int) : Nat := Nat.pow base e.toNat

/-- The quotient of two natural numbers. -/
structure Ratio where
  /-- The numerator. -/
  num : Nat
  /-- The denominator. -/
  den : Nat

namespace Ratio

/-- A natural number as a quotient. -/
def ofNat (n : Nat) : Ratio := ⟨n, 1⟩

/-- The quotient times a power of a base. -/
def scale (r : Ratio) (base : Nat) (e : Int) : Ratio :=
  ⟨r.num * power base e, r.den * power base (-e)⟩

/-- The quotient without its fraction. -/
def floor (r : Ratio) : Nat := r.num / r.den

/-- The fraction of the quotient, in units of its denominator. -/
def rest (r : Ratio) : Nat := r.num % r.den

/-- Where the quotient lies between the natural numbers around it: nearer to the lower one, in the
middle, or nearer to the upper one. -/
def half (r : Ratio) : Ordering := compare (2 * r.rest) r.den

/-- The nearest natural number, a half going to the even one. -/
def roundHalfEven (r : Ratio) : Nat :=
  match r.half with
  | .lt => r.floor
  | .eq => r.floor + r.floor % 2
  | .gt => r.floor + 1

/-- The exponent `e` with `2 ^ e ≤ r < 2 ^ (e + 1)`, for a positive quotient `r`. The lengths of the
numerator and the denominator leave two candidates. -/
def exponent (r : Ratio) : Int :=
  let e : Int := r.num.log2 - r.den.log2
  let scaled := r.scale 2 (-e)
  if scaled.num < scaled.den then e - 1 else e

/-- The position of the first decimal digit of a positive quotient `r`: the `p` with
`10 ^ (p - 1) ≤ r < 10 ^ p`. -/
def point (r : Ratio) : Int :=
  if r.den ≤ r.num then (Nat.toDigits 10 r.floor).length
  else
    let places := (Nat.toDigits 10 (r.den / r.num)).length
    if r.den = r.num * power 10 (places - 1) then 2 - places else 1 - places

end Ratio

end JsonRules
