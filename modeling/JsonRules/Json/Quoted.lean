/-!
# JSON strings

Text between double quotes as JSON has it. When it is written, the quote, the backslash and the
control characters below the space are escaped and nothing else is. When it is read, every escape of
JSON is understood; an escape of half a surrogate pair without its other half is not, and neither
are control characters that are not escaped.
-/

namespace JsonRules

namespace Json

/-- The escape of one letter that a character has. -/
def shortEscape? (c : Char) : Option Char :=
  if c = '"' then some '"'
  else if c = '\\' then some '\\'
  else if c.toNat = 0x8 then some 'b'
  else if c.toNat = 0xC then some 'f'
  else if c = '\n' then some 'n'
  else if c = '\r' then some 'r'
  else if c = '\t' then some 't'
  else none

/-- The hexadecimal digit of a number below sixteen, in lower case. -/
def hexDigit (n : Nat) : Char := Nat.digitChar n

/-- A character as it stands in a JSON string. -/
def quoteChar (c : Char) : List Char :=
  match shortEscape? c with
  | some letter => ['\\', letter]
  | none =>
    if c.toNat < 0x20 then ['\\', 'u', '0', '0', hexDigit (c.toNat / 16), hexDigit (c.toNat % 16)]
    else [c]

/-- The JSON string of a text. -/
def quoted (s : String) : String :=
  String.ofList ('"' :: (s.toList.flatMap quoteChar ++ ['"']))

/-- The character that an escape of one letter stands for. -/
def shortEscaped? (letter : Char) : Option Char :=
  match letter with
  | '"' => some '"'
  | '\\' => some '\\'
  | '/' => some '/'
  | 'b' => some '\x08'
  | 'f' => some '\x0c'
  | 'n' => some '\n'
  | 'r' => some '\r'
  | 't' => some '\t'
  | _ => none

/-- The value of a hexadecimal digit of either case. -/
def hexValue? (c : Char) : Option Nat :=
  if '0' ≤ c ∧ c ≤ '9' then some (c.toNat - '0'.toNat)
  else if 'a' ≤ c ∧ c ≤ 'f' then some (c.toNat - 'a'.toNat + 10)
  else if 'A' ≤ c ∧ c ≤ 'F' then some (c.toNat - 'A'.toNat + 10)
  else none

/-- The code unit that four hexadecimal digits stand for. -/
def codeUnit? (a b c d : Char) : Option Nat := do
  return ((((← hexValue? a) * 16 + (← hexValue? b)) * 16) + (← hexValue? c)) * 16 + (← hexValue? d)

/-- Whether a code unit is the first half of a surrogate pair. -/
def isHighSurrogate (unit : Nat) : Bool := decide (0xD800 ≤ unit ∧ unit ≤ 0xDBFF)

/-- Whether a code unit is the second half of a surrogate pair. -/
def isLowSurrogate (unit : Nat) : Bool := decide (0xDC00 ≤ unit ∧ unit ≤ 0xDFFF)

/-- The character that a surrogate pair stands for. -/
def ofSurrogates (high low : Nat) : Char :=
  Char.ofNat (0x10000 + (high - 0xD800) * 0x400 + (low - 0xDC00))

/-- A text with a character put before it. -/
def consChar (c : Char) : Option (List Char × List Char) → Option (List Char × List Char)
  | some (text, rest) => some (c :: text, rest)
  | none => none

/-- Reads a string from behind its opening quote, and returns what follows the closing one. -/
def readString : List Char → Option (List Char × List Char)
  | [] => none
  | '"' :: rest => some ([], rest)
  | '\\' :: 'u' :: a :: b :: c :: d :: rest =>
    match codeUnit? a b c d with
    | none => none
    | some unit =>
      if isLowSurrogate unit then none
      else if isHighSurrogate unit then
        match rest with
        | '\\' :: 'u' :: a :: b :: c :: d :: rest =>
          match codeUnit? a b c d with
          | some low =>
            if isLowSurrogate low then consChar (ofSurrogates unit low) (readString rest) else none
          | none => none
        | _ => none
      else consChar (Char.ofNat unit) (readString rest)
  | '\\' :: letter :: rest =>
    match shortEscaped? letter with
    | some c => consChar c (readString rest)
    | none => none
  | c :: rest => if c.toNat < 0x20 ∨ c = '\\' then none else consChar c (readString rest)

end Json

end JsonRules
