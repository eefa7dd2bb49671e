import JsonRules.Text.Printable

/-!
# Quoted text

Text between double quotes, in which nothing is invisible: the quote and the backslash are escaped
by a backslash, the line feed, carriage return, tab and null have escapes of one letter, and every
other character that is unprintable or combines with the character before it is written by its code
point in hexadecimal. A single quote stands for itself.
-/

namespace JsonRules

namespace Text

/-- The escape of a character by its code point. -/
def codePointEscape (c : Char) : List Char :=
  ['\\', 'u', '{'] ++ Nat.toDigits 16 c.toNat ++ ['}']

/-- A character as it stands in quoted text. -/
def quoteChar (c : Char) : List Char :=
  if c = '"' then ['\\', '"']
  else if c = '\\' then ['\\', '\\']
  else if c = '\n' then ['\\', 'n']
  else if c = '\r' then ['\\', 'r']
  else if c = '\t' then ['\\', 't']
  else if c.toNat = 0 then ['\\', '0']
  else if isCombining c || !isPrintable c then codePointEscape c
  else [c]

/-- The text in double quotes. -/
def quoted (s : String) : String :=
  String.ofList ('"' :: (s.toList.flatMap quoteChar ++ ['"']))

end Text

end JsonRules
