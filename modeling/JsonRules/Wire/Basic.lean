import JsonRules.Wire.Varint

/-!
# Truth values, texts, options and lists

The remaining parts that stored data are made of. A truth value is a byte, zero or one; an option is
such a byte with the element behind it, if there is one. Texts and lists start with their length, a
text being counted in bytes of UTF-8.
-/

namespace JsonRules

namespace Wire

/-- A truth value as a byte. -/
def writeBool (b : Bool) : List UInt8 := [if b then 1 else 0]

/-- Reads a byte that is zero or one. -/
def readBool : Reader Bool := do
  let b ← readByte
  if b = 0 then return false
  else if b = 1 then return true
  else failure

/-- A text, its length before it. -/
def writeText (s : String) : List UInt8 :=
  let bytes := s.toUTF8.toList
  writeVarint bytes.length ++ bytes

/-- Reads a text, which must be valid UTF-8. -/
def readText : Reader String := do
  let count ← readVarint countWidth
  let bytes ← readBytes count
  match String.fromUTF8? ⟨bytes.toArray⟩ with
  | some s => return s
  | none => failure

/-- An element that may be missing. -/
def writeOption {α : Type} (write : α → List UInt8) : Option α → List UInt8
  | none => writeBool false
  | some element => writeBool true ++ write element

/-- Reads an element that may be missing. -/
def readOption {α : Type} (read : Reader α) : Reader (Option α) := do
  if ← readBool then return some (← read) else return none

/-- A list, its length before it. -/
def writeList {α : Type} (write : α → List UInt8) (elements : List α) : List UInt8 :=
  writeVarint elements.length ++ elements.flatMap write

/-- Reads a list. -/
def readList {α : Type} (read : Reader α) : Reader (List α) := do
  let count ← readVarint countWidth
  readMany read count

end Wire

end JsonRules
