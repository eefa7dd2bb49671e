import JsonRules.Proofs.Json.Quoted
import JsonRules.Text.Quoted

/-!
# Quoted text as a JSON string

Quoted text and JSON strings share the escapes of the quote, the backslash, the line feed, the
carriage return and the tab, and a printable character that does not combine stands for itself in
both. The other escapes of quoted text are none of JSON: a string with one of them is refused
(`readString_quoteChar_text`). So quoted text is a JSON string, and then for the same text, exactly if
all of its characters are plain (`readsText_quoted_text`).
-/

namespace JsonRules

namespace Text

/-- Whether a character is quoted as JSON would have it. -/
def isPlain (c : Char) : Bool :=
  c == '\n' || c == '\r' || c == '\t' || (isPrintable c && !isCombining c)

/-- The control characters below the space are not printable. -/
theorem not_lt_of_isPrintable {c : Char} (h : isPrintable c = true) : ¬ c.toNat < 0x20 := by
  intro hlt
  have hle : c.toNat ≤ 0x1F := Nat.le_of_lt_succ hlt
  rw [isPrintable, unprintableRanges, inRanges, decide_eq_true (Nat.zero_le _), decide_eq_true hle]
    at h
  exact absurd h Bool.false_ne_true

/-- The characters that are not plain are escaped by a zero or by their code point. -/
theorem quoteChar_of_not_isPlain {c : Char} (h : isPlain c = false) :
    quoteChar c = ['\\', '0'] ∨ quoteChar c = codePointEscape c := by
  have hprinted : ∀ d : Char, isPlain d = true → c ≠ d := by
    rintro d hd rfl
    rw [h] at hd
    exact absurd hd Bool.false_ne_true
  simp only [isPlain, Bool.or_eq_false_iff, beq_eq_false_iff_ne] at h
  obtain ⟨⟨⟨hline, hreturn⟩, htab⟩, hother⟩ := h
  have hescaped : (isCombining c || !isPrintable c) = true := by
    cases hcombining : isCombining c <;> cases hprintable : isPrintable c <;>
      simp [hcombining, hprintable] at hother ⊢
  rw [quoteChar, if_neg (hprinted '"' (by decide)), if_neg (hprinted '\\' (by decide)),
    if_neg hline, if_neg hreturn, if_neg htab]
  by_cases hzero : c.toNat = 0
  · exact .inl (if_pos hzero)
  · rw [if_neg hzero, if_pos hescaped]
    exact .inr rfl

/-- The plain characters are escaped by the letters that JSON has for them, or not at all. -/
theorem quoteChar_of_isPlain {c : Char} (h : isPlain c = true) :
    (∃ letter, letter ≠ 'u' ∧ Json.shortEscaped? letter = some c ∧ quoteChar c = ['\\', letter]) ∨
      (c ≠ '"' ∧ c ≠ '\\' ∧ ¬ c.toNat < 0x20 ∧ quoteChar c = [c]) := by
  unfold quoteChar
  split_ifs with hquote hescape hline hreturn htab hzero hescaped
  · exact .inl ⟨'"', by decide, by rw [hquote]; rfl, rfl⟩
  · exact .inl ⟨'\\', by decide, by rw [hescape]; rfl, rfl⟩
  · exact .inl ⟨'n', by decide, by rw [hline]; rfl, rfl⟩
  · exact .inl ⟨'r', by decide, by rw [hreturn]; rfl, rfl⟩
  · exact .inl ⟨'t', by decide, by rw [htab]; rfl, rfl⟩
  all_goals
    -- a plain character other than those with a letter is printable and does not combine
    simp only [isPlain, beq_false_of_ne hline, beq_false_of_ne hreturn, beq_false_of_ne htab,
      Bool.false_or, Bool.and_eq_true, Bool.not_eq_true'] at h
    obtain ⟨hprintable, hcombining⟩ := h
  · exact absurd (show c.toNat < 0x20 by omega) (not_lt_of_isPrintable hprintable)
  · rw [hprintable, hcombining] at hescaped
    exact absurd hescaped Bool.false_ne_true
  · exact .inr ⟨hquote, hescape, not_lt_of_isPrintable hprintable, rfl⟩

end Text

namespace Json

/-- A brace is not a hexadecimal digit, so there is no code unit behind the `u`. -/
theorem readString_brace (cs : List Char) : readString ('\\' :: 'u' :: '{' :: cs) = none := by
  have hunit : ∀ b c d, codeUnit? '{' b c d = none := fun b c d => rfl
  have hletter : shortEscaped? 'u' = none := rfl
  match cs with
  | b :: c :: d :: rest => rw [readString, hunit]
  | [] | [_] | [_, _] => simp only [readString, hletter]

/-- What quoted text has for a character is read as the character if it is plain. -/
theorem readString_quoteChar_text (c : Char) (rest : List Char) :
    readString (Text.quoteChar c ++ rest) =
      if Text.isPlain c then consChar c (readString rest) else none := by
  cases hplain : Text.isPlain c with
  | true =>
    rw [if_pos rfl]
    obtain ⟨letter, hletter, hescaped, hchar⟩ | ⟨hquote, hescape, hspace, hchar⟩ :=
      Text.quoteChar_of_isPlain hplain
    · rw [hchar]
      exact readString_escape hletter hescaped rest
    · rw [hchar]
      exact readString_plain hquote hescape hspace rest
  | false =>
    rw [if_neg Bool.false_ne_true]
    obtain hchar | hchar := Text.quoteChar_of_not_isPlain hplain
    · rw [hchar]
      exact readString_letter (by decide) rest
    · rw [hchar]
      exact readString_brace _

theorem readsText_quoted_text (s : String) :
    ReadsText (Text.quoted s) (s.toList.all Text.isPlain) s :=
  readsText_flatMap readString_quoteChar_text s

end Json

end JsonRules
