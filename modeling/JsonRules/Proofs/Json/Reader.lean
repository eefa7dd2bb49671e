import JsonRules.Json.Reader
import JsonRules.Proofs.Decimal.Style
import JsonRules.Proofs.Json.Quoted
import JsonRules.Proofs.Value.Basic

/-!
# Reading the parts of a JSON text

What the readers of numbers and of lists make of texts without spaces, with any text behind them
that a value may be followed by (`Delimited`). A numeral is read as the number with its parts
(`readUnsigned_numeral`); elements with commas between them are read one by one, and if one of them
is refused the whole list is (`readList_elements`), and with it the array or the object
(`readWithin_arrayText`, `readWithin_objectText`).
-/

namespace JsonRules

namespace Json

/-- What may follow a value in a text without spaces. -/
def Delimited (rest : List Char) : Prop :=
  rest = [] ∨ ∃ c tail, rest = c :: tail ∧ (c = ',' ∨ c = ']' ∨ c = '}')

theorem delimited_nil : Delimited [] := .inl rfl

theorem delimited_comma (tail : List Char) : Delimited (',' :: tail) :=
  .inr ⟨_, tail, rfl, .inl rfl⟩

theorem skipSpace_cons {c : Char} (h : isSpace c = false) (cs : List Char) :
    skipSpace (c :: cs) = c :: cs := by
  rw [skipSpace, List.dropWhile_cons, if_neg (by simp [h])]

/-! ## Numbers -/

/-- Digits are read up to the first character that is none. -/
theorem span_isDigit_append {digits rest : List Char} (hdigits : ∀ c ∈ digits, c.isDigit = true)
    (hrest : ∀ c ∈ rest.head?, c.isDigit = false) :
    (digits ++ rest).span Char.isDigit = (digits, rest) := by
  rw [List.span_eq_takeWhile_dropWhile, List.takeWhile_append_of_pos hdigits,
    List.dropWhile_append_of_pos hdigits]
  cases rest with
  | nil => rw [List.takeWhile_nil, List.dropWhile_nil, List.append_nil]
  | cons c cs =>
    have hc : ¬ c.isDigit = true := by simp [hrest c rfl]
    rw [List.takeWhile_cons_of_neg hc, List.dropWhile_cons_of_neg hc, List.append_nil]

theorem head_of_delimited {rest : List Char} (h : Delimited rest) :
    ∀ c ∈ rest.head?, c.isDigit = false ∧ c ≠ '.' ∧ c ≠ 'e' ∧ c ≠ 'E' := by
  intro c hc
  rcases h with rfl | ⟨c', tail, rfl, hc'⟩
  · exact absurd hc (Option.not_mem_none c)
  · obtain rfl := Option.mem_some_iff.1 hc
    rcases hc' with rfl | rfl | rfl <;> decide

theorem readExponentDigits_writeNat (e : Int) {rest : List Char} (h : Delimited rest) :
    readExponentDigits ((if e < 0 then '-' else '+') :: (Text.writeNat e.natAbs ++ rest)) =
      some (e, rest) := by
  have hspan : (Text.writeNat e.natAbs ++ rest).span Char.isDigit =
      (Text.writeNat e.natAbs, rest) :=
    span_isDigit_append (fun c hc => Text.isDigit_of_mem_writeNat hc)
      fun c hc => (head_of_delimited h c hc).1
  have hempty : (Text.writeNat e.natAbs).isEmpty = false :=
    List.isEmpty_eq_false_iff.2 (Text.writeNat_ne_nil _)
  have hsign : ∀ cs, Text.readSign ((if e < 0 then '-' else '+') :: cs) = (decide (e < 0), cs) := by
    intro cs
    by_cases h : e < 0
    · rw [if_pos h, decide_eq_true h]
      rfl
    · rw [if_neg h, decide_eq_false h]
      rfl
  have hvalue : (if decide (e < 0) = true then -((e.natAbs : Nat) : Int) else e.natAbs) = e := by
    by_cases h : e < 0
    · rw [if_pos (decide_eq_true h)]
      omega
    · rw [if_neg (by simp [h])]
      omega
  simp only [readExponentDigits, hsign, hspan, hempty, Bool.false_eq_true, if_false,
    Text.digitsValue_writeNat, hvalue]

theorem readExponent_exponentText (exponent? : Option Int) {rest : List Char} (h : Delimited rest) :
    readExponent (Numeral.exponentText exponent? ++ rest) = some (exponent?, rest) := by
  cases exponent? with
  | none =>
    rw [Numeral.exponentText, List.nil_append]
    cases rest with
    | nil => rfl
    | cons c cs =>
      obtain ⟨-, -, he, hE⟩ := head_of_delimited h c rfl
      rw [readExponent, if_neg (not_or.2 ⟨he, hE⟩)]
  | some e =>
    rw [Numeral.exponentText, List.cons_append, List.cons_append, readExponent, if_pos (.inl rfl),
      readExponentDigits_writeNat e h]

/-- Neither an exponent nor what follows a value goes on with a digit or a point. -/
theorem head_exponentText_append (exponent? : Option Int) {rest : List Char} (h : Delimited rest) :
    ∀ c ∈ (Numeral.exponentText exponent? ++ rest).head?, c.isDigit = false ∧ c ≠ '.' := by
  intro c hc
  cases exponent? with
  | none =>
    obtain ⟨hdigit, hpoint, -⟩ := head_of_delimited h c hc
    exact ⟨hdigit, hpoint⟩
  | some e =>
    obtain rfl := Option.mem_some_iff.1 hc
    decide

theorem readFraction_fractionText {fraction? : Option (List Char)} {rest : List Char}
    (hdigits : ∀ digits ∈ fraction?, ∀ c ∈ digits, c.isDigit = true)
    (hne : ∀ digits ∈ fraction?, digits ≠ [])
    (hrest : ∀ c ∈ rest.head?, c.isDigit = false ∧ c ≠ '.') :
    readFraction (Numeral.fractionText fraction? ++ rest) = some (fraction?, rest) := by
  cases fraction? with
  | none =>
    rw [Numeral.fractionText, List.nil_append]
    unfold readFraction
    split
    · rename_i tail
      exact absurd rfl (hrest '.' rfl).2
    · rfl
  | some digits =>
    have hspan : (digits ++ rest).span Char.isDigit = (digits, rest) :=
      span_isDigit_append (hdigits digits rfl) fun c hc => (hrest c hc).1
    have hempty : digits.isEmpty = false := List.isEmpty_eq_false_iff.2 (hne digits rfl)
    simp only [Numeral.fractionText, List.cons_append, readFraction, hspan, hempty,
      Bool.false_eq_true, if_false]

theorem isWhole_of_proper {n : Numeral} (h : n.Proper) : isWhole n.whole = true := by
  rcases h.whole_cases with hzero | ⟨first, rest, hwhole, hfirst⟩
  · rw [hzero]
    rfl
  · rw [hwhole]
    unfold isWhole
    split
    · exact absurd ‹_› (List.cons_ne_nil first rest)
    · rfl
    · rename_i heq
      exact bne_iff_ne.2 ((List.cons.inj heq).1 ▸ hfirst)

/-- A numeral is read as the number with its parts. -/
theorem readUnsigned_numeral (negative : Bool) {n : Numeral} (h : n.Proper) {rest : List Char}
    (hrest : Delimited rest) :
    readUnsigned negative (n.text ++ rest) =
      (ofParts? negative n.whole n.fraction? n.exponent?).map fun number => (number, rest) := by
  have hexponent := head_exponentText_append n.exponent? hrest
  have hfraction : ∀ c ∈ (Numeral.fractionText n.fraction? ++
      (Numeral.exponentText n.exponent? ++ rest)).head?, c.isDigit = false := by
    intro c hc
    cases hf : n.fraction? with
    | none =>
      rw [hf] at hc
      exact (hexponent c hc).1
    | some digits =>
      rw [hf] at hc
      obtain rfl := Option.mem_some_iff.1 hc
      decide
  rw [Numeral.text, List.append_assoc, List.append_assoc]
  simp only [readUnsigned, span_isDigit_append h.isDigit_whole hfraction, isWhole_of_proper h,
    if_true, readFraction_fractionText h.isDigit_fraction h.fraction_ne_nil hexponent,
    readExponent_exponentText n.exponent? hrest, Option.bind_eq_bind, Option.bind_some]
  cases ofParts? negative n.whole n.fraction? n.exponent? <;> rfl

/-- A numeral with a point or an exponent is the number that its decimal is. -/
theorem ofParts?_decimal (negative : Bool) {n : Numeral}
    (h : n.fraction?.isSome ∨ n.exponent?.isSome) :
    ofParts? negative n.whole n.fraction? n.exponent? = ofDecimal? negative n.decimal := by
  unfold ofParts?
  split
  · rename_i hfraction hexponent
    simp [hfraction, hexponent] at h
  · rfl

/-- What starts with a digit is read as a number. -/
theorem readScalar_of_isDigit {c : Char} (h : c.isDigit = true) (cs : List Char) :
    readScalar (c :: cs) = readUnsigned false (c :: cs) := by
  have hne : ∀ d : Char, d.isDigit = false → c ≠ d := fun d hd e => by simp [e, hd] at h
  rw [readScalar.eq_def]
  split
  · rename_i heq
    exact absurd (List.cons.inj heq).1 (hne 'n' rfl)
  · rename_i heq
    exact absurd (List.cons.inj heq).1 (hne 't' rfl)
  · rename_i heq
    exact absurd (List.cons.inj heq).1 (hne 'f' rfl)
  · rename_i heq
    exact absurd (List.cons.inj heq).1 (hne '"' rfl)
  · rename_i heq
    exact absurd (List.cons.inj heq).1 (hne '-' rfl)
  · rfl

/-- A numeral after an optional minus is a scalar. -/
theorem readScalar_numeral (negative : Bool) {n : Numeral} (h : n.Proper) {rest : List Char}
    (hrest : Delimited rest) :
    readScalar ((if negative then '-' :: n.text else n.text) ++ rest) =
      (ofParts? negative n.whole n.fraction? n.exponent?).map fun number => (number, rest) := by
  cases negative with
  | true => exact readUnsigned_numeral true h hrest
  | false =>
    rw [if_neg Bool.false_ne_true, ← readUnsigned_numeral false h hrest]
    obtain ⟨first, rest, hwhole, hdigit⟩ := h.exists_whole_eq_cons
    rw [Numeral.text, hwhole]
    exact readScalar_of_isDigit hdigit _

/-! ## Values -/

/-- Only arrays and objects are not scalars. -/
theorem readWithin_scalar (nesting : Nat) {c : Char} (harray : c ≠ '[') (hobject : c ≠ '{')
    (cs : List Char) : readWithin nesting (c :: cs) = readScalar (c :: cs) := by
  rw [readWithin.eq_def]
  split
  · rfl
  · rename_i heq
    exact absurd (List.cons.inj heq).1 harray
  · rename_i heq
    exact absurd (List.cons.inj heq).1 hobject
  · rfl

theorem readWithin_zero_array (cs : List Char) : readWithin 0 ('[' :: cs) = none := by
  rw [readWithin, readScalar]
  · rfl
  all_goals simp

theorem readWithin_zero_object (cs : List Char) : readWithin 0 ('{' :: cs) = none := by
  rw [readWithin, readScalar]
  · rfl
  all_goals simp

/-- A numeral starts with a digit or a minus. -/
theorem exists_signed_text_eq_cons (negative : Bool) {n : Numeral} (h : n.Proper) :
    ∃ c cs, (if negative then '-' :: n.text else n.text) = c :: cs ∧
      (c.isDigit = true ∨ c = '-') := by
  cases negative with
  | true => exact ⟨'-', n.text, rfl, .inr rfl⟩
  | false =>
    obtain ⟨first, rest, hwhole, hdigit⟩ := h.exists_whole_eq_cons
    exact ⟨first, _, by rw [Numeral.text, hwhole]; rfl, .inl hdigit⟩

theorem ne_of_isDigit_or_minus {c : Char} (h : c.isDigit = true ∨ c = '-') :
    isSpace c = false ∧ c ≠ ']' ∧ c ≠ '[' ∧ c ≠ '{' := by
  have hne : ∀ d : Char, d.isDigit = false → d ≠ '-' → c ≠ d := by
    rintro d hd hminus rfl
    rcases h with h | h
    · simp [hd] at h
    · exact hminus h
  refine ⟨?_, hne _ rfl (by decide), hne _ rfl (by decide), hne _ rfl (by decide)⟩
  simp [isSpace, hne ' ' rfl (by decide), hne '\t' rfl (by decide), hne '\n' rfl (by decide),
    hne '\r' rfl (by decide)]

/-- A numeral after an optional minus is read as the number with its parts. -/
theorem readWithin_numeral (nesting : Nat) (negative : Bool) {n : Numeral} (h : n.Proper)
    {rest : List Char} (hrest : Delimited rest) :
    readWithin nesting ((if negative then '-' :: n.text else n.text) ++ rest) =
      (ofParts? negative n.whole n.fraction? n.exponent?).map fun number => (number, rest) := by
  obtain ⟨c, cs, htext, hc⟩ := exists_signed_text_eq_cons negative h
  obtain ⟨-, -, harray, hobject⟩ := ne_of_isDigit_or_minus hc
  rw [← readScalar_numeral negative h hrest, htext]
  exact readWithin_scalar nesting harray hobject _

/-! ## Elements -/

section Elements

variable {α β : Type} {close : Char} {readElement : List Char → Option (α × List Char)}
  {text : β → List Char} {value? : β → Option α}

/-- An element is read from its text, or refused, whatever follows it. -/
def ReadsElement (readElement : List Char → Option (α × List Char)) (text : β → List Char)
    (value? : β → Option α) (b : β) : Prop :=
  ∀ rest, Delimited rest → readElement (text b ++ rest) = (value? b).map fun a => (a, rest)

/-- The text of an element starts with something that is neither a space nor the closing
character. -/
def StartsElement (close : Char) (text : β → List Char) (b : β) : Prop :=
  ∃ c cs, text b = c :: cs ∧ isSpace c = false ∧ c ≠ close

theorem isSpace_close (hclose : close = ']' ∨ close = '}') : isSpace close = false := by
  rcases hclose with rfl | rfl <;> rfl

theorem skipSpace_element {b : β} (h : StartsElement close text b) (rest : List Char) :
    skipSpace (text b ++ rest) = text b ++ rest := by
  obtain ⟨c, cs, htext, hspace, -⟩ := h
  rw [htext]
  exact skipSpace_cons hspace _

theorem readElements_elements (hclose : close = ']' ∨ close = '}') {first : β} {others : List β}
    (hread : ∀ b ∈ first :: others, ReadsElement readElement text value? b)
    (hstart : ∀ b ∈ first :: others, StartsElement close text b) {fuel : Nat}
    (hfuel : others.length < fuel) (rest : List Char) :
    readElements close readElement fuel
        (List.intercalate [','] ((first :: others).map text) ++ close :: rest) =
      ((first :: others).mapM value?).map fun elements => (elements, rest) := by
  -- one element is always read first, and what follows it decides whether there is another
  induction others generalizing first fuel with
  | nil =>
    obtain ⟨fuel, rfl⟩ := Nat.exists_eq_succ_of_ne_zero (Nat.ne_of_gt hfuel)
    have hdelimited : Delimited (close :: rest) := .inr ⟨close, rest, rfl, .inr hclose⟩
    have hcomma : close ≠ ',' := by rcases hclose with rfl | rfl <;> decide
    have hfirst := hread first List.mem_cons_self _ hdelimited
    have hskip := skipSpace_element (hstart first List.mem_cons_self) (close :: rest)
    simp only [List.map_cons, List.map_nil, List.intercalate_singleton, readElements, hskip, hfirst,
      List.mapM_cons, List.mapM_nil]
    cases value? first with
    | none => rfl
    | some a => simp [skipSpace_cons (isSpace_close hclose), hcomma]
  | cons second others ih =>
    obtain ⟨fuel, rfl⟩ := Nat.exists_eq_succ_of_ne_zero (Nat.ne_of_gt (Nat.zero_lt_of_lt hfuel))
    have hothers := ih (fun b hb => hread b (List.mem_cons_of_mem _ hb))
      (fun b hb => hstart b (List.mem_cons_of_mem _ hb)) (Nat.lt_of_succ_lt_succ hfuel)
    rw [List.map_cons, List.map_cons, List.intercalate_cons_cons, ← List.map_cons,
      List.append_assoc, List.append_assoc, List.singleton_append]
    generalize List.intercalate [','] ((second :: others).map text) ++ close :: rest = tail at *
    have hfirst := hread first List.mem_cons_self _ (delimited_comma tail)
    have hskip := skipSpace_element (hstart first List.mem_cons_self) (',' :: tail)
    rw [readElements, hskip, hfirst, List.mapM_cons]
    cases value? first with
    | none => simp
    | some a =>
      simp only [Option.map_some, Option.bind_eq_bind, Option.bind_some,
        skipSpace_cons (show isSpace ',' = false from rfl), if_true, hothers]
      cases (second :: others).mapM value? <;> rfl

/-- There are no more elements than characters in their texts. -/
theorem length_le_length_intercalate {bs : List β} (hstart : ∀ b ∈ bs, StartsElement close text b) :
    bs.length ≤ (List.intercalate [','] (bs.map text)).length := by
  induction bs with
  | nil => exact Nat.zero_le _
  | cons b rest ih =>
    obtain ⟨c, cs, htext, -⟩ := hstart b List.mem_cons_self
    have hrest := ih fun b hb => hstart b (List.mem_cons_of_mem _ hb)
    cases rest with
    | nil => simp [htext]
    | cons b' rest =>
      rw [List.map_cons, List.map_cons, List.intercalate_cons_cons, ← List.map_cons,
        List.length_append, List.length_append, htext]
      simp only [List.length_cons] at hrest ⊢
      omega

/-- Elements with commas between them and the closing character are read one by one, and the list is
refused if one of them is. -/
theorem readList_elements (hclose : close = ']' ∨ close = '}') {bs : List β}
    (hread : ∀ b ∈ bs, ReadsElement readElement text value? b)
    (hstart : ∀ b ∈ bs, StartsElement close text b) (rest : List Char) :
    readList close readElement (List.intercalate [','] (bs.map text) ++ close :: rest) =
      (bs.mapM value?).map fun elements => (elements, rest) := by
  cases bs with
  | nil => simp [readList, skipSpace_cons (isSpace_close hclose)]
  | cons first others =>
    obtain ⟨c, cs, htext, hspace, hne⟩ := hstart first List.mem_cons_self
    have hlength := length_le_length_intercalate hstart
    obtain ⟨tail, htail⟩ : ∃ tail, List.intercalate [','] ((first :: others).map text) =
        c :: tail := by
      cases others with
      | nil => exact ⟨cs, by simp [htext]⟩
      | cons second others =>
        rw [List.map_cons, List.map_cons, List.intercalate_cons_cons, htext]
        exact ⟨_, rfl⟩
    have hfuel : others.length < (tail ++ close :: rest).length + 1 := by
      rw [htail] at hlength
      simp only [List.length_cons, List.length_append] at hlength ⊢
      omega
    have helements := readElements_elements hclose hread hstart hfuel rest
    rw [htail, List.cons_append] at helements ⊢
    rw [readList, skipSpace_cons hspace]
    simp only [if_neg hne]
    exact helements

end Elements

/-- A member is read from its key, a colon and the text of its value, if the key can be read. -/
theorem readMember_member {readValue : List Char → Option (Json × List Char)}
    {written key : String} {readable : Bool} (hkey : ReadsText written readable key)
    {value : List Char} {json? : Option Json} {rest : List Char}
    (hstart : skipSpace (value ++ rest) = value ++ rest)
    (hread : readValue (value ++ rest) = json?.map fun j => (j, rest)) :
    readMember readValue (written.toList ++ (':' :: value ++ rest)) =
      (if readable then json?.map fun j => (key, j) else none).map fun m => (m, rest) := by
  obtain ⟨cs, hwritten, hcs⟩ := hkey
  rw [hwritten, List.cons_append, readMember, hcs]
  cases readable with
  | false => rfl
  | true =>
    simp only [if_true, Option.bind_eq_bind, Option.bind_some, List.cons_append,
      skipSpace_cons (show isSpace ':' = false from rfl), hstart, hread, String.ofList_toList]
    cases json? <;> rfl

/-! ## Arrays and objects -/

section Containers

variable {α : Type} {text : α → String} {tree : α → Json} {p : α → Prop} [DecidablePred p]
  {nesting : Nat}

theorem toList_arrayText (items : List String) :
    (arrayText items).toList =
      '[' :: (List.intercalate [','] (items.map String.toList) ++ [']']) := by
  rw [arrayText, String.toList_append, String.toList_append, String.toList_intercalate]
  rfl

theorem toList_objectText (members : List String) :
    (objectText members).toList =
      '{' :: (List.intercalate [','] (members.map String.toList) ++ ['}']) := by
  rw [objectText, String.toList_append, String.toList_append, String.toList_intercalate]
  rfl

/-- A condition on each element decides about all of them together. -/
theorem mapM_ite_eq {β : Type} (f : α → β) (xs : List α) :
    xs.mapM (fun a => if p a then some (f a) else none) =
      if ∀ a ∈ xs, p a then some (xs.map f) else none := by
  induction xs with
  | nil => rfl
  | cons a rest ih =>
    rw [List.mapM_cons, ih]
    by_cases ha : p a
    · by_cases hrest : ∀ b ∈ rest, p b
      · rw [if_pos ha, if_pos hrest, if_pos (List.forall_mem_cons.2 ⟨ha, hrest⟩)]
        rfl
      · rw [if_pos ha, if_neg hrest, if_neg fun h => hrest (List.forall_mem_cons.1 h).2]
        rfl
    · rw [if_neg ha, if_neg fun h => ha (List.forall_mem_cons.1 h).1]
      rfl

/-- An array is read from the texts of its items, if all of them can be read. -/
theorem readWithin_arrayText {items : List α}
    (hread : ∀ a ∈ items, ∀ rest, Delimited rest →
      readWithin nesting ((text a).toList ++ rest) = if p a then some (tree a, rest) else none)
    (hstart : ∀ a ∈ items, StartsElement ']' (fun a => (text a).toList) a) (rest : List Char) :
    readWithin (nesting + 1) ((arrayText (items.map text)).toList ++ rest) =
      if ∀ a ∈ items, p a then some (array (items.map tree), rest) else none := by
  have hitem : ∀ a ∈ items, ReadsElement (readWithin nesting) (fun a => (text a).toList)
      (fun a => if p a then some (tree a) else none) a := by
    intro a ha rest hrest
    rw [hread a ha rest hrest]
    dsimp only
    split <;> rfl
  have hlist := readList_elements (.inl rfl) hitem hstart rest
  rw [toList_arrayText, List.map_map, List.cons_append, List.append_assoc, readWithin]
  change (readList ']' _ (List.intercalate [','] (items.map fun a => (text a).toList) ++
    ']' :: rest)).map _ = _
  rw [hlist, mapM_ite_eq]
  split <;> rfl

/-- An object is read from the texts of its members, if all keys and values can be read. -/
theorem readWithin_objectText {members : List (String × α)} (hsorted : Members.Sorted members)
    {quote : String → String} {readable : String → Bool} {text : String × α → String}
    {tree : String × α → Json} {p : String × α → Prop} [DecidablePred p]
    (hkey : ∀ m ∈ members, ReadsText (quote m.1) (readable m.1) m.1)
    (hread : ∀ m ∈ members, ∀ rest, Delimited rest →
      readWithin nesting ((text m).toList ++ rest) = if p m then some (tree m, rest) else none)
    (hstart : ∀ m ∈ members, StartsElement ']' (fun m => (text m).toList) m) (rest : List Char) :
    readWithin (nesting + 1)
        ((objectText (members.map fun m => quote m.1 ++ ":" ++ text m)).toList ++ rest) =
      if ∀ m ∈ members, readable m.1 = true ∧ p m then
        some (object (members.map fun m => (m.1, tree m)), rest)
      else none := by
  have htext : ∀ m : String × α, (quote m.1 ++ ":" ++ text m).toList =
      (quote m.1).toList ++ ':' :: (text m).toList := by
    intro m
    rw [String.toList_append, String.toList_append, List.append_assoc]
    rfl
  have hmember : ∀ m ∈ members, ReadsElement (readMember (readWithin nesting))
      (fun m => (quote m.1 ++ ":" ++ text m).toList)
      (fun m => if readable m.1 = true ∧ p m then some (m.1, tree m) else none) m := by
    intro m hm rest hrest
    have hvalue : readWithin nesting ((text m).toList ++ rest) =
        (if p m then some (tree m) else none).map fun j => (j, rest) := by
      rw [hread m hm rest hrest]
      split <;> rfl
    dsimp only
    rw [htext, List.append_assoc, readMember_member (hkey m hm)
      (skipSpace_element (hstart m hm) rest) hvalue]
    by_cases hreadable : readable m.1 = true <;> by_cases hp : p m <;> simp [hreadable, hp]
  have hmemberStart : ∀ m ∈ members, StartsElement '}'
      (fun m => (quote m.1 ++ ":" ++ text m).toList) m := by
    intro m hm
    obtain ⟨cs, hwritten, -⟩ := hkey m hm
    refine ⟨'"', cs ++ ':' :: (text m).toList, ?_, rfl, by decide⟩
    dsimp only
    rw [htext, hwritten, List.cons_append]
  have hentries : Members.Sorted (members.map fun m => (m.1, tree m)) :=
    List.pairwise_map.2 hsorted
  have hlist := readList_elements (.inr rfl) hmember hmemberStart rest
  rw [toList_objectText, List.map_map, List.cons_append, List.append_assoc, readWithin]
  change (readList '}' _ (List.intercalate [',']
    (members.map fun m => (quote m.1 ++ ":" ++ text m).toList) ++ '}' :: rest)).map _ = _
  rw [hlist, mapM_ite_eq]
  split
  · exact congrArg (fun entries => some (object entries, rest)) (Members.ofList_eq_self hentries)
  · rfl

end Containers

end Json

end JsonRules
