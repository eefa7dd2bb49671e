import JsonRules.Wire.LittleEndian

/-!
# Reading bytes

A reader takes what it reads off the front of a byte string and fails if it is not there. Readers
are run one after another in the monad of state and failure.
-/

namespace JsonRules

namespace Wire

/-- Reads something off the front of a byte string. -/
abbrev Reader (α : Type) := StateT (List UInt8) Option α

/-- Reads one byte. -/
def readByte : Reader UInt8
  | [] => none
  | b :: rest => some (b, rest)

/-- Reads so many bytes. -/
def readBytes (count : Nat) : Reader (List UInt8) := fun bytes =>
  let front := bytes.take count
  if front.length = count then some (front, bytes.drop count) else none

/-- Reads a number of so many bytes, the lowest first. -/
def readFixed (count : Nat) : Reader Nat := do return ofLittleEndian (← readBytes count)

/-- Reads so many elements one after another. -/
def readMany {α : Type} (read : Reader α) : (count : Nat) → Reader (List α)
  | 0 => pure []
  | count + 1 => do
    let element ← read
    let rest ← readMany read count
    return element :: rest

/-- What was written is read back, whatever follows it. -/
theorem readBytes_append (bytes rest : List UInt8) :
    readBytes bytes.length (bytes ++ rest) = some (bytes, rest) := by
  simp [readBytes]

theorem readFixed_littleEndian {count n : Nat} (h : n >>> (8 * count) = 0) (rest : List UInt8) :
    readFixed count (littleEndian count n ++ rest) = some (n, rest) := by
  have hr := readBytes_append (littleEndian count n) rest
  rw [length_littleEndian] at hr
  simp only [readFixed, bind, StateT.bind, hr, Option.bind, ofLittleEndian_littleEndian h]
  rfl

end Wire

end JsonRules
