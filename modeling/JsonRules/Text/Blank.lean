/-!
# Blank characters

The characters with the Unicode property White_Space, and texts without the blanks around them.
-/

namespace JsonRules

namespace Text

/-- The inclusive ranges of code points with the property White_Space. -/
def blankRanges : List (Nat × Nat) :=
  [(0x9, 0xD), (0x20, 0x20), (0x85, 0x85), (0xA0, 0xA0), (0x1680, 0x1680), (0x2000, 0x200A),
    (0x2028, 0x2029), (0x202F, 0x202F), (0x205F, 0x205F), (0x3000, 0x3000)]

/-- Whether a character is white space. -/
def isBlank (c : Char) : Bool :=
  blankRanges.any fun (first, last) => decide (first ≤ c.toNat ∧ c.toNat ≤ last)

/-- The text without the blanks at its two ends. -/
def trim (cs : List Char) : List Char :=
  ((cs.dropWhile isBlank).reverse.dropWhile isBlank).reverse

/-- Every character that core counts as white space is blank. -/
theorem isBlank_of_isWhitespace {c : Char} (h : c.isWhitespace = true) : isBlank c = true := by
  simp only [Char.isWhitespace, Bool.or_eq_true, decide_eq_true_eq] at h
  rcases h with ((rfl | rfl) | rfl) | rfl <;> decide

/-- Dropping blanks leaves nothing exactly of the texts that are all blank. -/
theorem dropWhile_isBlank_eq_nil_iff {cs : List Char} :
    cs.dropWhile isBlank = [] ↔ ∀ c ∈ cs, isBlank c = true := by
  induction cs with
  | nil => simp
  | cons c cs ih => by_cases h : isBlank c = true <;> simp [List.dropWhile, h, ih]

/-- Trimming leaves nothing exactly of the texts that are all blank. -/
theorem trim_eq_nil_iff {cs : List Char} : trim cs = [] ↔ ∀ c ∈ cs, isBlank c = true := by
  rw [trim, List.reverse_eq_nil_iff, dropWhile_isBlank_eq_nil_iff,
    ← @dropWhile_isBlank_eq_nil_iff cs]
  constructor
  · intro h
    cases hd : cs.dropWhile isBlank with
    | nil => rfl
    | cons c rest =>
      have hc := List.head?_dropWhile_not isBlank cs
      rw [hd] at hc h
      have := h c (by simp)
      simp_all
  · intro h
    simp [h]

end Text

end JsonRules
