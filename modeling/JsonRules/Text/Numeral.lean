import JsonRules.Decimal.Basic
import JsonRules.Integer

/-!
# Numerals

The decimal numerals that texts may hold: digit strings, signed 64-bit integers, array indices and
decimal fractions. All of them are ASCII, admit leading zeros and admit nothing around them.

A fraction has an optional sign, digits with at most one point among them (before, between or behind
them, but not alone) and an optional exponent, for instance `-.5e3`.
-/

namespace JsonRules

namespace Text

/-- The value of a decimal digit. -/
def digitValue (c : Char) : Nat := c.toNat - '0'.toNat

/-- The number that a list of digits stands for. -/
def digitsValue (cs : List Char) : Nat := cs.foldl (fun n c => 10 * n + digitValue c) 0

/-- The decimal digits of a number. -/
def writeNat (n : Nat) : List Char := Nat.toDigits 10 n

/-- The decimal numeral of a number. -/
def numeral (n : Nat) : String := String.ofList (writeNat n)

/-- The decimal numeral of an integer, with a sign only if it is negative. -/
def writeInt (n : Int) : List Char :=
  if n < 0 then '-' :: writeNat n.natAbs else writeNat n.natAbs

/-- The value of a text that is one or more digits. -/
def readNat? (cs : List Char) : Option Nat :=
  if cs.isEmpty || !cs.all Char.isDigit then none else some (digitsValue cs)

/-- A text without its optional sign, and whether that sign was a minus. -/
def readSign : List Char → Bool × List Char
  | '-' :: rest => (true, rest)
  | '+' :: rest => (false, rest)
  | cs => (false, cs)

/-- The value of a text that is an optionally signed run of digits. -/
def readInt? (cs : List Char) : Option Int :=
  let (negative, digits) := readSign cs
  (readNat? digits).map fun n => if negative then -n else n

/-- The value of a text that is a signed 64-bit integer. -/
def readInt64? (cs : List Char) : Option Int64 := (readInt? cs).bind int64?

/-- The value of a text that is an index: digits with an optional plus before them, below
`2 ^ 64`. -/
def readIndex? (cs : List Char) : Option Nat :=
  let digits := match cs with
    | '+' :: rest => rest
    | _ => cs
  match readNat? digits with
  | some n => if n < UInt64.size then some n else none
  | none => none

/-- The exponent that a text ends with: nothing at all counts as zero, and otherwise a letter `e` of
either case comes before an integer. -/
def readExponent? : List Char → Option Int
  | [] => some 0
  | c :: rest => if c = 'e' ∨ c = 'E' then readInt? rest else none

/-- The decimal fraction that a text stands for, with its sign. -/
def readDecimal? (cs : List Char) : Option (Bool × Decimal) :=
  let (negative, body) := readSign cs
  let (whole, rest) := body.span Char.isDigit
  let (fraction, rest) :=
    match rest with
    | '.' :: behind => behind.span Char.isDigit
    | _ => ([], rest)
  if whole.isEmpty && fraction.isEmpty then none
  else
    (readExponent? rest).map fun exponent =>
      (negative, ⟨digitsValue (whole ++ fraction), exponent - fraction.length⟩)

/-- The double-precision number nearest to the fraction that a text stands for, unless it is too
large. -/
def readBinary64? (cs : List Char) : Option Binary64 :=
  match readDecimal? cs with
  | some (negative, d) =>
    let x := d.toBinary64 negative
    if x.isFinite then some x else none
  | none => none

end Text

end JsonRules
