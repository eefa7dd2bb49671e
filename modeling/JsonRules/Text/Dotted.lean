/-!
# Dotted text

Splitting a text at its dots, and joining the pieces again. A text with `n` dots has `n + 1` pieces,
some of them possibly empty; in particular the empty text has one empty piece. Main statements:
`join_split` gives the text back, and `split_join` the pieces, as long as none of them has a dot in
it.
-/

namespace JsonRules

namespace Text

/-- The pieces between the dots of a text. -/
def splitDots : List Char → List (List Char)
  | [] => [[]]
  | c :: rest =>
    if c = '.' then [] :: splitDots rest
    else
      match splitDots rest with
      | [] => [[c]]
      | piece :: pieces => (c :: piece) :: pieces

/-- The pieces with a dot between each two. -/
def joinDots : List (List Char) → List Char
  | [] => []
  | [piece] => piece
  | piece :: pieces => piece ++ '.' :: joinDots pieces

theorem splitDots_ne_nil (cs : List Char) : splitDots cs ≠ [] := by
  cases cs with
  | nil => simp [splitDots]
  | cons c rest =>
    by_cases h : c = '.'
    · simp [splitDots, h]
    · simp only [splitDots, h, if_false]
      split <;> simp

theorem joinDots_cons_cons (c : Char) (piece : List Char) (pieces : List (List Char)) :
    joinDots ((c :: piece) :: pieces) = c :: joinDots (piece :: pieces) := by
  cases pieces <;> rfl

/-- Splitting loses nothing. -/
theorem join_split (cs : List Char) : joinDots (splitDots cs) = cs := by
  induction cs with
  | nil => rfl
  | cons c rest ih =>
    by_cases h : c = '.'
    · have hne := splitDots_ne_nil rest
      simp only [splitDots, h, if_true]
      cases hs : splitDots rest with
      | nil => exact absurd hs hne
      | cons piece pieces => rw [hs] at ih; simp [joinDots, ih]
    · simp only [splitDots, h, if_false]
      cases hs : splitDots rest with
      | nil => exact absurd hs (splitDots_ne_nil rest)
      | cons piece pieces =>
        rw [hs] at ih
        simp only [joinDots_cons_cons, ih]

/-- Texts joined by a dot have the pieces of the one before those of the other. -/
theorem splitDots_append_dot (cs rest : List Char) :
    splitDots (cs ++ '.' :: rest) = splitDots cs ++ splitDots rest := by
  induction cs with
  | nil => simp [splitDots]
  | cons c cs ih =>
    by_cases h : c = '.'
    · simp [splitDots, h, ih]
    · simp only [List.cons_append, splitDots, h, if_false, ih]
      cases hs : splitDots cs with
      | nil => exact absurd hs (splitDots_ne_nil cs)
      | cons piece pieces => rfl

/-- A text without dots is its only piece. -/
theorem splitDots_of_notMem {cs : List Char} (h : '.' ∉ cs) : splitDots cs = [cs] := by
  induction cs with
  | nil => rfl
  | cons c cs ih =>
    have hc : c ≠ '.' := fun e => h (by simp [e])
    have hcs : '.' ∉ cs := fun e => h (by simp [e])
    simp [splitDots, hc, ih hcs]

/-- Pieces without dots are got back from the text that they are joined to. -/
theorem split_join {pieces : List (List Char)} (hne : pieces ≠ [])
    (h : ∀ piece ∈ pieces, '.' ∉ piece) : splitDots (joinDots pieces) = pieces := by
  induction pieces with
  | nil => exact absurd rfl hne
  | cons piece pieces ih =>
    cases pieces with
    | nil => exact splitDots_of_notMem (h piece (by simp))
    | cons next pieces =>
      simp only [joinDots]
      rw [splitDots_append_dot, splitDots_of_notMem (h piece (by simp)),
        ih (by simp) fun p hp => h p (by simp [hp]), List.singleton_append]

end Text

end JsonRules
