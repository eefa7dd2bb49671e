import JsonRules.Value.Basic
import JsonRules.Wire.Basic

/-!
# Stored values

A value is stored as the number of its constructor and what it holds. Floats are stored by their
bits, so every NaN is kept. The members of a stored object may come in any order and repeat keys;
reading puts them in order and takes the last value of a key.
-/

namespace JsonRules

namespace Wire

mutual

/-- The bytes of a value. -/
def writeValue : Value → List UInt8
  | .null => writeVarint 0
  | .bool b => writeVarint 1 ++ writeBool b
  | .int n => writeVarint 2 ++ writeVarint (zigzag n)
  | .float x => writeVarint 3 ++ littleEndian 8 x.bits.toNat
  | .string s => writeVarint 4 ++ writeText s
  | .array items => writeVarint 5 ++ writeVarint items.length ++ writeItems items
  | .object members => writeVarint 6 ++ writeVarint members.length ++ writeMembers members

/-- The bytes of items one after another. -/
def writeItems : List Value → List UInt8
  | [] => []
  | v :: rest => writeValue v ++ writeItems rest

/-- The bytes of members one after another. -/
def writeMembers : List (String × Value) → List UInt8
  | [] => []
  | (k, v) :: rest => writeText k ++ writeValue v ++ writeMembers rest

end

/-- Reads a key and a value. -/
def readMember (readValue : Reader Value) : Reader (String × Value) := do
  let key ← readText
  let value ← readValue
  return (key, value)

/-- Reads a value with at most so many arrays and objects around one another. -/
def readValueWithin : (nesting : Nat) → Reader Value
  | 0 => failure
  | nesting + 1 => do
    match ← readVarint positionWidth with
    | 0 => return .null
    | 1 => return .bool (← readBool)
    | 2 => return .int (unzigzag (← readVarint countWidth))
    | 3 => return .float ⟨UInt64.ofNat (← readFixed 8)⟩
    | 4 => return .string (← readText)
    | 5 => return .array (← readList (readValueWithin nesting))
    | 6 => return .object (Members.ofList (← readList (readMember (readValueWithin nesting))))
    | _ => failure

/-- Reads a value. Every array and object takes at least a byte, so there are no more of them around
one another than there are bytes. -/
def readValue : Reader Value := fun bytes => readValueWithin bytes.length bytes

end Wire

end JsonRules
