import JsonRules.Json.Basic

/-!
# Reading JSON

A strict reader of JSON texts. It follows the grammar to the letter: nothing but spaces, tabs and
line ends between the tokens, no leading zeros, no text behind the value. Beyond the grammar, arrays
and objects may be inside one another only so far (`maxNesting`), and a number too large for double
precision is refused. If a key occurs twice in an object, its last value is taken.

A decimal is read as the double-precision number nearest to it, the even one of two
(`Decimal.toBinary64`). Every statement about a text that is read back assumes that: a reader that
only comes near, which the grammar allows, may return a neighbour of the number that was written.

The readers of parts take the rest of the text and return what they have read with what is left.
-/

namespace JsonRules

namespace Json

/-- How many arrays and objects may be inside one another. -/
def maxNesting : Nat := 127

/-- Whether a character may stand between tokens. -/
def isSpace (c : Char) : Bool := c == ' ' || c == '\t' || c == '\n' || c == '\r'

/-- The text without the spaces before it. -/
def skipSpace (cs : List Char) : List Char := cs.dropWhile isSpace

/-- Reads a fraction with its point, or nothing. -/
def readFraction : List Char → Option (Option (List Char) × List Char)
  | '.' :: rest =>
    let (digits, rest) := rest.span Char.isDigit
    if digits.isEmpty then none else some (some digits, rest)
  | cs => some (none, cs)

/-- Reads the digits of an exponent with its sign. -/
def readExponentDigits (cs : List Char) : Option (Int × List Char) :=
  let (negative, rest) := Text.readSign cs
  let (digits, rest) := rest.span Char.isDigit
  if digits.isEmpty then none
  else some (if negative then -Text.digitsValue digits else Text.digitsValue digits, rest)

/-- Reads an exponent with its letter, or nothing. -/
def readExponent : List Char → Option (Option Int × List Char)
  | [] => some (none, [])
  | c :: rest =>
    if c = 'e' ∨ c = 'E' then
      match readExponentDigits rest with
      | some (exponent, rest) => some (some exponent, rest)
      | none => none
    else some (none, c :: rest)

/-- A decimal as a number of a tree, rounded to the nearest one, unless it is too large. -/
def ofDecimal? (negative : Bool) (d : Decimal) : Option Json :=
  let x := d.toBinary64 negative
  if x.isFinite then some (decimal x) else none

/-- An integer literal as a number of a tree: a float if it is out of range or a negative zero. -/
def ofInteger? (negative : Bool) (n : Nat) : Option Json :=
  if negative then
    if n ≠ 0 ∧ Int64.minValue.toInt ≤ -n then some (integer (-n)) else ofDecimal? true ⟨n, 0⟩
  else if n < UInt64.size then some (integer n) else ofDecimal? false ⟨n, 0⟩

/-- The number with the given parts. -/
def ofParts? (negative : Bool) (whole : List Char) (fraction? : Option (List Char))
    (exponent? : Option Int) : Option Json :=
  match fraction?, exponent? with
  | none, none => ofInteger? negative (Text.digitsValue whole)
  | _, _ =>
    let fraction := fraction?.getD []
    ofDecimal? negative
      ⟨Text.digitsValue (whole ++ fraction), exponent?.getD 0 - fraction.length⟩

/-- Whether digits may be the whole part of a number. -/
def isWhole (digits : List Char) : Bool :=
  match digits with
  | [] => false
  | ['0'] => true
  | first :: _ => first != '0'

/-- Reads the number behind an optional minus. -/
def readUnsigned (negative : Bool) (cs : List Char) : Option (Json × List Char) := do
  let (whole, rest) := cs.span Char.isDigit
  if isWhole whole then
    let (fraction?, rest) ← readFraction rest
    let (exponent?, rest) ← readExponent rest
    let number ← ofParts? negative whole fraction? exponent?
    return (number, rest)
  else none

/-- Reads a value that holds no other values. -/
def readScalar : List Char → Option (Json × List Char)
  | 'n' :: 'u' :: 'l' :: 'l' :: rest => some (null, rest)
  | 't' :: 'r' :: 'u' :: 'e' :: rest => some (bool true, rest)
  | 'f' :: 'a' :: 'l' :: 's' :: 'e' :: rest => some (bool false, rest)
  | '"' :: rest => (readString rest).map fun (text, rest) => (string (String.ofList text), rest)
  | '-' :: rest => readUnsigned true rest
  | cs => readUnsigned false cs

/-- Reads elements with commas between them and the character that closes them. The number of
elements is bounded by `fuel`. -/
def readElements {α : Type} (close : Char) (readElement : List Char → Option (α × List Char)) :
    (fuel : Nat) → List Char → Option (List α × List Char)
  | 0, _ => none
  | fuel + 1, cs => do
    let (element, rest) ← readElement (skipSpace cs)
    match skipSpace rest with
    | [] => none
    | c :: rest =>
      if c = ',' then
        let (elements, rest) ← readElements close readElement fuel rest
        return (element :: elements, rest)
      else if c = close then return ([element], rest)
      else none

/-- Reads any number of elements behind an opening character, up to the closing one. An element has
at least one character, so there are no more elements than characters. -/
def readList {α : Type} (close : Char) (readElement : List Char → Option (α × List Char))
    (cs : List Char) : Option (List α × List Char) :=
  match skipSpace cs with
  | [] => none
  | c :: rest =>
    if c = close then some ([], rest)
    else readElements close readElement (rest.length + 1) (c :: rest)

/-- Reads a key, a colon and a value. -/
def readMember (readValue : List Char → Option (Json × List Char)) :
    List Char → Option ((String × Json) × List Char)
  | '"' :: rest => do
    let (key, rest) ← readString rest
    match skipSpace rest with
    | ':' :: rest =>
      let (value, rest) ← readValue (skipSpace rest)
      return ((String.ofList key, value), rest)
    | _ => none
  | _ => none

/-- Reads a value with at most so many arrays and objects inside one another. -/
def readWithin : (nesting : Nat) → List Char → Option (Json × List Char)
  | 0, cs => readScalar cs
  | nesting + 1, '[' :: rest =>
    (readList ']' (readWithin nesting) rest).map fun (items, rest) => (array items, rest)
  | nesting + 1, '{' :: rest =>
    (readList '}' (readMember (readWithin nesting)) rest).map fun (entries, rest) =>
      (object (Members.ofList entries), rest)
  | _, cs => readScalar cs

/-- The tree of a JSON text. -/
def read? (text : String) : Option Json := do
  let (tree, rest) ← readWithin maxNesting (skipSpace text.toList)
  if (skipSpace rest).isEmpty then some tree else none

end Json

end JsonRules
