import JsonRules.Decimal.Shortest

/-!
# Decimal notation

A `Decimal.Style` says how a finite double-precision number is written: which exponents are written
positionally and which with a power of ten, how many digits follow the point at least, and which
decimal is taken when two are equally near. Digits are always the shortest that read back, and a
negative zero keeps its sign.

`writeIntegral` is the other notation in use, the exact value of a number without a fraction.
-/

namespace JsonRules

/-- The decisions that fix the text of a finite number. -/
structure Decimal.Style where
  /-- Whether a number whose first digit stands at this power of ten is written positionally. -/
  positional : Int → Bool
  /-- Whether a number without a fraction is written with a zero behind the point. -/
  keepsPoint : Bool
  /-- Which of two equally near decimals is taken. -/
  tie : Decimal.Tie

namespace Decimal

/-- Positional text of the digits `0.d₁d₂… · 10 ^ point`. -/
def positionalText (keepsPoint : Bool) (digits : List Char) (point : Int) : List Char :=
  if point ≤ 0 then '0' :: '.' :: (List.replicate (-point).toNat '0' ++ digits)
  else
    let whole := digits.take point.toNat
    let fraction := digits.drop point.toNat
    whole ++ List.replicate (point.toNat - digits.length) '0' ++
      if fraction.isEmpty then (if keepsPoint then ['.', '0'] else []) else '.' :: fraction

/-- Text of the digits `0.d₁d₂… · 10 ^ point` with one digit before the point and a signed power of
ten. -/
def scientificText (digits : List Char) (point : Int) : List Char :=
  let exponent := point - 1
  digits.take 1 ++ (if digits.length ≤ 1 then [] else '.' :: digits.drop 1) ++
    'e' :: (if exponent < 0 then '-' else '+') :: Nat.toDigits 10 exponent.natAbs

/-- The digits of a coefficient without the zeros that end it. -/
def significantDigits (d : Decimal) : List Char := (d.digits.reverse.dropWhile (· == '0')).reverse

/-- The text of a finite number in a style. -/
def Style.write (style : Style) (x : Binary64) : List Char :=
  let body :=
    if x.isZero then positionalText style.keepsPoint ['0'] 1
    else
      let d := shortest style.tie x
      if style.positional (d.point - 1) then
        positionalText style.keepsPoint d.significantDigits d.point
      else scientificText d.significantDigits d.point
  if x.isNegative then '-' :: body else body

/-- The exact text of a finite number without a fraction, with a zero behind the point. -/
def writeIntegral (x : Binary64) : List Char :=
  let body := Nat.toDigits 10 x.integralPart ++ ['.', '0']
  if x.isNegative then '-' :: body else body

end Decimal

end JsonRules
