import JsonRules.Integer

/-!
# Slices of text

Parts of a text by position, counted in characters and with bounds that may be negative or beyond
the ends, and occurrences of one text in another.

`slice` says which part is meant. It is cut out in 64-bit integers (`sliceInt64?`), where a sum can
overflow and nothing can be cut behind the end of the text. A text with more characters than such an
integer can count is cut as meant (`substring`).
-/

namespace JsonRules

namespace Text

/-- The first position of a slice of `length` characters: a negative start counts from the end. -/
def sliceStart (length start : Int) : Int :=
  if start < 0 then max 0 (length + start) else min start length

/-- The position behind a slice that begins at `first`: without a count it goes to the end, and a
negative count leaves that many characters off the end. -/
def sliceEnd (length first : Int) : Option Int → Int
  | none => length
  | some count => if count < 0 then max first (length + count) else min length (first + count)

/-- The characters of a text from a start on, as many as counted. -/
def slice (cs : List Char) (start : Int) (count : Option Int) : List Char :=
  let first := sliceStart cs.length start
  let last := sliceEnd cs.length first count
  (cs.drop first.toNat).take (last - first).toNat

theorem sliceStart_nonneg (length : Nat) (start : Int) : 0 ≤ sliceStart length start := by
  simp only [sliceStart]; split <;> omega

theorem sliceStart_le (length : Nat) (start : Int) : sliceStart length start ≤ length := by
  simp only [sliceStart]; split <;> omega

theorem le_sliceEnd {length : Nat} {first : Int} (h : first ≤ length) (count : Option Int) :
    first ≤ sliceEnd length first count := by
  cases count with
  | none => exact h
  | some count => simp only [sliceEnd]; split <;> omega

theorem sliceEnd_le {length : Nat} {first : Int} (h : first ≤ length) (count : Option Int) :
    sliceEnd length first count ≤ length := by
  cases count with
  | none => exact Int.le_refl _
  | some count => simp only [sliceEnd]; split <;> omega

/-! ## Slices in 64-bit integers -/

/-- The length of a text, cut off at the largest integer. -/
def lengthInt64 (cs : List Char) : Int64 := (int64? cs.length).getD Int64.maxValue

/-- The first position of a slice, unless a sum overflows. -/
def sliceStartInt64? (length start : Int64) : Option Int64 :=
  if start < 0 then (addInt64? length start).map (max · 0) else some (min start length)

/-- The position behind a slice, unless a sum overflows. -/
def sliceEndInt64? (length first : Int64) : Option Int64 → Option Int64
  | none => some length
  | some count =>
    if count < 0 then (addInt64? length count).map (max · first)
    else some (min (saturatingAdd first count) length)

/-- What stands between two positions of a text; it cannot be cut behind its end. -/
def cut? (cs : List Char) (first last : Int64) : Option (List Char) :=
  if first < 0 ∨ last < 0 then some []
  else
    let first := first.toInt.toNat
    let last := max last.toInt.toNat first
    if last ≤ cs.length then some ((cs.drop first).take (last - first)) else none

/-- The slice of a text as computed in 64-bit integers. There is none if a sum overflows or if it
would have to be cut out behind the end of the text. -/
def sliceInt64? (cs : List Char) (start : Int64) (count? : Option Int64) : Option (List Char) := do
  let first ← sliceStartInt64? (lengthInt64 cs) start
  let last ← sliceEndInt64? (lengthInt64 cs) first count?
  cut? cs first last

/-- The slice that is taken of a text: the one computed in 64-bit integers, if they can count the
characters of the text. -/
def substring (cs : List Char) (start : Int64) (count? : Option Int64) : List Char :=
  if cs.length ≤ Int64.maxValue.toInt then (sliceInt64? cs start count?).getD []
  else slice cs start.toInt (count?.map Int64.toInt)

/-! ## Occurrences -/

/-- Whether some characters occur in a row among others. -/
def occursIn (needle : List Char) : List Char → Bool
  | [] => needle.isEmpty
  | c :: rest => needle.isPrefixOf (c :: rest) || occursIn needle rest

/-- One text occurs in another exactly if it is an infix of it. -/
theorem occursIn_iff {needle cs : List Char} : occursIn needle cs = true ↔ needle <:+: cs := by
  induction cs with
  | nil => simp [occursIn]
  | cons c rest ih => simp [occursIn, List.infix_cons_iff, ih]

end Text

end JsonRules
