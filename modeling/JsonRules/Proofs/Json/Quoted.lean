import JsonRules.Json.Quoted
import Mathlib.Tactic.SplitIfs

/-!
# JSON strings that are read back

A text between quotes is read, whatever follows the closing quote, if what is written for each of its
characters is read as that character (`readsText_flatMap`), which it is in a JSON string
(`readString_quoteChar`, `readsText_quoted`).
-/

namespace JsonRules

namespace Json

theorem hexValue?_hexDigit : ∀ n < 16, hexValue? (hexDigit n) = some n := by decide

/-- The escape of a control character is read as the code of the character. -/
theorem codeUnit?_of_lt {n : Nat} (h : n < 32) :
    codeUnit? '0' '0' (hexDigit (n / 16)) (hexDigit (n % 16)) = some n := by
  rw [codeUnit?, hexValue?_hexDigit (n / 16) (by omega), hexValue?_hexDigit (n % 16) (by omega)]
  change some (((0 * 16 + 0) * 16 + n / 16) * 16 + n % 16) = some n
  congr 1
  omega

theorem readString_control {c : Char} (h : c.toNat < 32) (rest : List Char) :
    readString ('\\' :: 'u' :: '0' :: '0' :: hexDigit (c.toNat / 16) :: hexDigit (c.toNat % 16) ::
      rest) = consChar c (readString rest) := by
  have hlow : isLowSurrogate c.toNat = false := decide_eq_false (by omega)
  have hhigh : isHighSurrogate c.toNat = false := decide_eq_false (by omega)
  rw [readString]
  simp only [codeUnit?_of_lt h, hlow, hhigh, Bool.false_eq_true, if_false, Char.ofNat_toNat]

theorem readString_letter {letter : Char} (hletter : letter ≠ 'u') (rest : List Char) :
    readString ('\\' :: letter :: rest) =
      match shortEscaped? letter with
      | some c => consChar c (readString rest)
      | none => none := by
  rw [readString.eq_def]
  split
  · exact absurd ‹_› (List.cons_ne_nil _ _)
  · rename_i heq
    exact absurd (List.cons.inj heq).1 (by decide)
  · rename_i heq
    exact absurd (List.cons.inj (List.cons.inj heq).2).1 hletter
  · rename_i heq
    obtain ⟨rfl, rfl⟩ := List.cons.inj (List.cons.inj heq).2
    rfl
  · rename_i hother heq
    obtain ⟨rfl, rfl⟩ := List.cons.inj heq
    exact absurd rfl (hother letter rest rfl)

theorem readString_escape {letter c : Char} (hletter : letter ≠ 'u')
    (h : shortEscaped? letter = some c) (rest : List Char) :
    readString ('\\' :: letter :: rest) = consChar c (readString rest) := by
  rw [readString_letter hletter, h]

theorem readString_plain {c : Char} (hquote : c ≠ '"') (hescape : c ≠ '\\')
    (hspace : ¬ c.toNat < 0x20) (rest : List Char) :
    readString (c :: rest) = consChar c (readString rest) := by
  rw [readString.eq_def]
  split
  · exact absurd ‹_› (List.cons_ne_nil _ _)
  · rename_i h
    exact absurd (List.cons.inj h).1 hquote
  · rename_i h
    exact absurd (List.cons.inj h).1 hescape
  · rename_i h
    exact absurd (List.cons.inj h).1 hescape
  · rename_i h
    obtain ⟨rfl, rfl⟩ := List.cons.inj h
    rw [if_neg (not_or.2 ⟨hspace, hescape⟩)]

/-- A letter that a character is escaped by is read as the character. -/
theorem shortEscaped?_of_shortEscape? {c letter : Char} (h : shortEscape? c = some letter) :
    letter ≠ 'u' ∧ shortEscaped? letter = some c := by
  have hchar : ∀ n : Nat, c.toNat = n → c = Char.ofNat n := fun n hn =>
    hn ▸ (Char.ofNat_toNat c).symm
  unfold shortEscape? at h
  split_ifs at h with hquote hescape hbackspace hfeed hline hreturn htab
  all_goals obtain rfl := Option.some.inj h
  · exact ⟨by decide, by rw [hquote]; rfl⟩
  · exact ⟨by decide, by rw [hescape]; rfl⟩
  · exact ⟨by decide, hchar _ hbackspace ▸ rfl⟩
  · exact ⟨by decide, hchar _ hfeed ▸ rfl⟩
  · exact ⟨by decide, hline ▸ rfl⟩
  · exact ⟨by decide, hreturn ▸ rfl⟩
  · exact ⟨by decide, htab ▸ rfl⟩

theorem ne_of_shortEscape?_eq_none {c : Char} (h : shortEscape? c = none) :
    c ≠ '"' ∧ c ≠ '\\' := by
  constructor
  · rintro rfl
    exact absurd h (by decide)
  · rintro rfl
    exact absurd h (by decide)

/-- What is written for a character is read as the character. -/
theorem readString_quoteChar (c : Char) (rest : List Char) :
    readString (quoteChar c ++ rest) = consChar c (readString rest) := by
  unfold quoteChar
  cases h : shortEscape? c with
  | some letter =>
    obtain ⟨hletter, hescaped⟩ := shortEscaped?_of_shortEscape? h
    exact readString_escape hletter hescaped rest
  | none =>
    obtain ⟨hquote, hescape⟩ := ne_of_shortEscape?_eq_none h
    by_cases hspace : c.toNat < 0x20
    · simp only [if_pos hspace]
      exact readString_control hspace rest
    · simp only [if_neg hspace]
      exact readString_plain hquote hescape hspace rest

/-- What is written for a text starts a string, which is read as the text or refused. -/
def ReadsText (written : String) (readable : Bool) (text : String) : Prop :=
  ∃ cs, written.toList = '"' :: cs ∧
    ∀ rest, readString (cs ++ rest) = if readable then some (text.toList, rest) else none

section Characters

variable {quote : Char → List Char} {readable : Char → Bool}
  (hquote : ∀ c rest, readString (quote c ++ rest) =
    if readable c then consChar c (readString rest) else none)

include hquote

theorem readString_flatMap (cs rest : List Char) :
    readString (cs.flatMap quote ++ '"' :: rest) =
      if cs.all readable then some (cs, rest) else none := by
  induction cs with
  | nil => rfl
  | cons c cs ih =>
    rw [List.flatMap_cons, List.append_assoc, hquote, ih, List.all_cons]
    cases readable c with
    | false => rfl
    | true => cases cs.all readable <;> rfl

/-- A text is read if all of its characters are, and refused with the first that is not. -/
theorem readsText_flatMap (s : String) :
    ReadsText (String.ofList ('"' :: (s.toList.flatMap quote ++ ['"']))) (s.toList.all readable)
      s := by
  refine ⟨_, String.toList_ofList, fun rest => ?_⟩
  rw [List.append_assoc]
  exact readString_flatMap hquote s.toList rest

end Characters

theorem readsText_quoted (s : String) : ReadsText (quoted s) true s := by
  have hall : (s.toList.all fun _ => true) = true := List.all_eq_true.2 fun _ _ => rfl
  have hread := @readsText_flatMap quoteChar (fun _ => true) readString_quoteChar s
  rw [hall] at hread
  exact hread

end Json

end JsonRules
