import JsonRules.Decimal.Style
import JsonRules.Proofs.Decimal.Shortest
import JsonRules.Proofs.Text.Numeral
import Mathlib.Data.List.TakeWhile

/-!
# Numerals of decimals

A number in decimal notation consists of digits, perhaps a fraction and perhaps an exponent
(`Numeral`). Every style writes a finite number as a numeral, in whichever notation, and the decimal
that the numeral stands for reads back as the number: `exists_numeral_write`. Neither the zeros that
are put around the digits nor those that are left out change the decimal (`digitsAt`).
-/

namespace JsonRules

/-- The parts of a number in decimal notation. -/
structure Numeral where
  /-- The digits before the point. -/
  whole : List Char
  /-- The digits behind the point, if there is one. -/
  fraction? : Option (List Char)
  /-- The power of ten, if there is one. -/
  exponent? : Option Int

namespace Numeral

/-- A fraction with its point. -/
def fractionText : Option (List Char) → List Char
  | none => []
  | some digits => '.' :: digits

/-- A power of ten with its letter and its sign. -/
def exponentText : Option Int → List Char
  | none => []
  | some e => 'e' :: (if e < 0 then '-' else '+') :: Text.writeNat e.natAbs

/-- The parts one after the other. -/
def text (n : Numeral) : List Char :=
  n.whole ++ (fractionText n.fraction? ++ exponentText n.exponent?)

/-- The decimal that the parts stand for. -/
def decimal (n : Numeral) : Decimal :=
  ⟨Text.digitsValue (n.whole ++ n.fraction?.getD []),
    n.exponent?.getD 0 - (n.fraction?.getD []).length⟩

/-- The parts are digits, there are some before the point and some behind it if it is there, and no
zero is put before other digits. -/
structure Proper (n : Numeral) : Prop where
  isDigit_whole : ∀ c ∈ n.whole, c.isDigit = true
  whole_cases : n.whole = ['0'] ∨ ∃ first rest, n.whole = first :: rest ∧ first ≠ '0'
  isDigit_fraction : ∀ digits ∈ n.fraction?, ∀ c ∈ digits, c.isDigit = true
  fraction_ne_nil : ∀ digits ∈ n.fraction?, digits ≠ []

theorem Proper.exists_whole_eq_cons {n : Numeral} (h : n.Proper) :
    ∃ first rest, n.whole = first :: rest ∧ first.isDigit = true := by
  obtain ⟨first, rest, hwhole⟩ : ∃ first rest, n.whole = first :: rest := by
    rcases h.whole_cases with hzero | ⟨first, rest, hwhole, -⟩
    · exact ⟨_, _, hzero⟩
    · exact ⟨_, _, hwhole⟩
  exact ⟨first, rest, hwhole, h.isDigit_whole first (hwhole ▸ List.mem_cons_self)⟩

theorem proper_writeNat (n : Nat) : Proper ⟨Text.writeNat n, none, none⟩ := by
  refine ⟨fun c hc => Text.isDigit_of_mem_writeNat hc, ?_, fun _ h => (Option.not_mem_none _ h).elim,
    fun _ h => (Option.not_mem_none _ h).elim⟩
  by_cases h : n = 0
  · exact .inl (congrArg Text.writeNat h)
  · exact .inr (Text.exists_writeNat_eq_cons h)

/-- A point with a zero behind it may follow an integer. -/
theorem Proper.point_zero {digits : List Char} (h : Proper ⟨digits, none, none⟩) :
    Proper ⟨digits, some ['0'], none⟩ where
  isDigit_whole := h.isDigit_whole
  whole_cases := h.whole_cases
  isDigit_fraction _ hzero := Option.mem_some_iff.1 hzero ▸ List.forall_mem_singleton.2 rfl
  fraction_ne_nil _ hzero := Option.mem_some_iff.1 hzero ▸ List.cons_ne_nil _ _

end Numeral

namespace Decimal

/-! ## Digits at a point -/

/-- The rational number `0.d₁d₂… · 10 ^ point`. -/
def digitsAt (digits : List Char) (point : Int) : ℚ :=
  Text.digitsValue digits * (10 : ℚ) ^ (point - digits.length)

/-- Zeros behind the other digits say nothing. -/
theorem digitsAt_append_zeros (digits : List Char) (k : Nat) (point : Int) :
    digitsAt (digits ++ List.replicate k '0') point = digitsAt digits point := by
  have hpower : (10 : ℚ) ^ (point - digits.length) =
      10 ^ k * 10 ^ (point - (digits ++ List.replicate k '0').length) := by
    rw [← zpow_natCast, ← zpow_add₀ (by norm_num), List.length_append, List.length_replicate]
    congr 1
    omega
  rw [digitsAt, digitsAt, Text.digitsValue_append, Text.digitsValue_zeros, List.length_replicate,
    hpower]
  push_cast
  ring

/-- Zeros before the other digits move the point. -/
theorem digitsAt_zeros_append (digits : List Char) (k : Nat) (point : Int) :
    digitsAt (List.replicate k '0' ++ digits) point = digitsAt digits (point - k) := by
  have hexponent : point - (List.replicate k '0' ++ digits).length = point - k - digits.length := by
    rw [List.length_append, List.length_replicate]
    omega
  rw [digitsAt, digitsAt, Text.digitsValue_append, Text.digitsValue_zeros, hexponent, Nat.zero_mul,
    Nat.zero_add]

theorem value_numeral (n : Numeral) :
    n.decimal.value =
      digitsAt (n.whole ++ n.fraction?.getD []) (n.whole.length + n.exponent?.getD 0) := by
  have hexponent : n.exponent?.getD 0 - ((n.fraction?.getD []).length : Int) =
      n.whole.length + n.exponent?.getD 0 - (n.whole ++ n.fraction?.getD []).length := by
    rw [List.length_append]
    omega
  rw [value, Numeral.decimal, digitsAt]
  dsimp only
  rw [hexponent]

/-! ## Significant digits -/

/-- The digits are the significant ones and zeros. -/
theorem exists_digits_eq (d : Decimal) :
    ∃ k, d.digits = d.significantDigits ++ List.replicate k '0' := by
  refine ⟨(d.digits.reverse.takeWhile (· == '0')).length, ?_⟩
  have hzeros : ∀ c ∈ d.digits.reverse.takeWhile (· == '0'), c = '0' := by
    intro c hc
    have hbeq : (c == '0') = true := List.mem_takeWhile_imp (p := (· == '0')) hc
    exact eq_of_beq hbeq
  have hsplit := List.takeWhile_append_dropWhile (p := (· == '0')) (l := d.digits.reverse)
  rw [List.eq_replicate_of_mem hzeros] at hsplit
  rw [significantDigits, ← List.reverse_inj, List.reverse_append, List.reverse_replicate,
    List.reverse_reverse, hsplit]

theorem value_eq_digitsAt (d : Decimal) : d.value = digitsAt d.significantDigits d.point := by
  obtain ⟨k, hdigits⟩ := d.exists_digits_eq
  have hvalue : Text.digitsValue d.digits = d.coefficient := Text.digitsValue_writeNat _
  rw [← digitsAt_append_zeros _ k, ← hdigits, digitsAt, hvalue, value, point, add_sub_cancel_left]

theorem isDigit_of_mem_significantDigits {d : Decimal} {c : Char} (h : c ∈ d.significantDigits) :
    c.isDigit = true := by
  obtain ⟨k, hdigits⟩ := d.exists_digits_eq
  have hmem : c ∈ d.digits := hdigits ▸ List.mem_append_left _ h
  exact Text.isDigit_of_mem_writeNat hmem

/-- The significant digits of a positive decimal do not start with a zero. -/
theorem exists_significantDigits_eq_cons {d : Decimal} (h : d.coefficient ≠ 0) :
    ∃ first rest, d.significantDigits = first :: rest ∧ first ≠ '0' := by
  obtain ⟨k, hdigits⟩ := d.exists_digits_eq
  obtain ⟨first, rest, hcons, hfirst⟩ := Text.exists_writeNat_eq_cons h
  have happend : d.significantDigits ++ List.replicate k '0' = first :: rest :=
    hdigits.symm.trans hcons
  cases hsignificant : d.significantDigits with
  | nil =>
    rw [hsignificant, List.nil_append] at happend
    have hmem : first ∈ List.replicate k '0' := happend ▸ List.mem_cons_self
    exact absurd (List.eq_of_mem_replicate hmem) hfirst
  | cons c cs =>
    rw [hsignificant, List.cons_append] at happend
    exact ⟨c, cs, rfl, (List.cons.inj happend).1 ▸ hfirst⟩

/-! ## Notations -/

/-- The numeral is written as the text and stands for the digits at the point. -/
structure Writes (n : Numeral) (text digits : List Char) (point : Int) : Prop where
  proper : n.Proper
  text_eq : n.text = text
  value_eq : n.decimal.value = digitsAt digits point

section Notations

variable {first : Char} {rest : List Char} (hfirst : first ≠ '0')
  (hdigits : ∀ c ∈ first :: rest, c.isDigit = true)

include hdigits in
/-- Positional notation below one: zeros stand between the point and the digits. -/
theorem writes_positional_of_nonpos (keepsPoint : Bool) {point : Int} (hpoint : point ≤ 0) :
    Writes ⟨['0'], some (List.replicate (-point).toNat '0' ++ first :: rest), none⟩
      (positionalText keepsPoint (first :: rest) point) (first :: rest) point := by
  have hzero : ∀ c ∈ List.replicate (-point).toNat '0' ++ first :: rest, c.isDigit = true := by
    intro c hc
    rcases List.mem_append.1 hc with hc | hc
    · rw [List.eq_of_mem_replicate hc]
      rfl
    · exact hdigits c hc
  constructor
  · refine ⟨List.forall_mem_singleton.2 rfl, .inl rfl, ?_, ?_⟩
    · exact fun digits h => Option.mem_some_iff.1 h ▸ hzero
    · intro digits h
      rw [← Option.mem_some_iff.1 h]
      simp
  · rw [positionalText, if_pos hpoint]
    simp [Numeral.text, Numeral.fractionText, Numeral.exponentText]
  · rw [value_numeral]
    change digitsAt (List.replicate 1 '0' ++ (List.replicate (-point).toNat '0' ++ first :: rest))
      ((1 : Nat) + 0) = _
    rw [digitsAt_zeros_append, digitsAt_zeros_append]
    congr 1
    omega

include hfirst hdigits in
/-- Positional notation of an integer: zeros stand between the digits and the point. -/
theorem writes_positional_integer {p : Nat} (hle : rest.length ≤ p) :
    Writes ⟨first :: (rest ++ List.replicate (p - rest.length) '0'), some ['0'], none⟩
      (positionalText true (first :: rest) (p + 1 : Nat)) (first :: rest) (p + 1 : Nat) := by
  have hpoint : ¬ ((p + 1 : Nat) : Int) ≤ 0 := by omega
  have hwhole : ∀ c ∈ first :: (rest ++ List.replicate (p - rest.length) '0'),
      c.isDigit = true := by
    intro c hc
    rw [← List.cons_append] at hc
    rcases List.mem_append.1 hc with hc | hc
    · exact hdigits c hc
    · rw [List.eq_of_mem_replicate hc]
      rfl
  constructor
  · refine ⟨hwhole, .inr ⟨_, _, rfl, hfirst⟩, ?_, ?_⟩
    · exact fun digits h => Option.mem_some_iff.1 h ▸ List.forall_mem_singleton.2 rfl
    · exact fun digits h => Option.mem_some_iff.1 h ▸ List.cons_ne_nil _ _
  · rw [positionalText, if_neg hpoint]
    simp [Numeral.text, Numeral.fractionText, Numeral.exponentText, List.take_of_length_le hle,
      List.drop_of_length_le hle]
  · -- the zero behind the point is one more of those behind the digits
    have hzeros : first :: (rest ++ List.replicate (p - rest.length) '0') ++ ['0'] =
        (first :: rest) ++ List.replicate (p - rest.length + 1) '0' := by
      rw [List.replicate_succ', List.cons_append, List.append_assoc, List.cons_append]
    have hlength : (rest ++ List.replicate (p - rest.length) '0').length = p := by
      rw [List.length_append, List.length_replicate]
      omega
    rw [value_numeral]
    change digitsAt (first :: (rest ++ List.replicate (p - rest.length) '0') ++ ['0'])
      (((rest ++ List.replicate (p - rest.length) '0').length + 1 : Nat) + 0) = _
    rw [hzeros, digitsAt_append_zeros, hlength, add_zero]

include hfirst hdigits in
/-- Positional notation with the point between the digits. -/
theorem writes_positional_between {p : Nat} (hlt : p < rest.length) :
    Writes ⟨first :: rest.take p, some (rest.drop p), none⟩
      (positionalText true (first :: rest) (p + 1 : Nat)) (first :: rest) (p + 1 : Nat) := by
  have hpoint : ¬ ((p + 1 : Nat) : Int) ≤ 0 := by omega
  have hfraction : rest.drop p ≠ [] := by
    rw [Ne, List.drop_eq_nil_iff]
    omega
  constructor
  · refine ⟨?_, .inr ⟨_, _, rfl, hfirst⟩, ?_, ?_⟩
    · intro c hc
      rcases List.mem_cons.1 hc with rfl | hc
      · exact hdigits c List.mem_cons_self
      · exact hdigits c (List.mem_cons_of_mem _ (List.mem_of_mem_take hc))
    · intro digits h c hc
      rw [← Option.mem_some_iff.1 h] at hc
      exact hdigits c (List.mem_cons_of_mem _ (List.mem_of_mem_drop hc))
    · exact fun digits h => Option.mem_some_iff.1 h ▸ hfraction
  · have hnone : p - rest.length = 0 := by omega
    rw [positionalText, if_neg hpoint]
    simp [Numeral.text, Numeral.fractionText, Numeral.exponentText, hfraction, hnone]
  · have hlength : (rest.take p).length = p := by
      rw [List.length_take]
      omega
    rw [value_numeral]
    change digitsAt (first :: rest.take p ++ rest.drop p) (((rest.take p).length + 1 : Nat) + 0) = _
    rw [List.cons_append, List.take_append_drop, hlength, add_zero]

include hfirst hdigits in
theorem exists_writes_positional_of_pos {point : Int} (hpoint : 0 < point) :
    ∃ n, n.fraction?.isSome ∧
      Writes n (positionalText true (first :: rest) point) (first :: rest) point := by
  obtain ⟨p, rfl⟩ := Int.eq_succ_of_zero_lt hpoint
  by_cases hle : rest.length ≤ p
  · exact ⟨_, rfl, writes_positional_integer hfirst hdigits hle⟩
  · exact ⟨_, rfl, writes_positional_between hfirst hdigits (Nat.lt_of_not_le hle)⟩

include hdigits in
/-- Scientific notation: one digit stands before the point, and the power of ten makes up for it. -/
theorem writes_scientific (point : Int) :
    Writes ⟨[first], if rest = [] then none else some rest, some (point - 1)⟩
      (scientificText (first :: rest) point) (first :: rest) point := by
  have hone : ∀ c ∈ [first], c.isDigit = true :=
    List.forall_mem_singleton.2 (hdigits first List.mem_cons_self)
  have hwhole : [first] = ['0'] ∨ ∃ c cs, [first] = c :: cs ∧ c ≠ '0' := by
    by_cases h : first = '0'
    · exact .inl (h ▸ rfl)
    · exact .inr ⟨first, [], rfl, h⟩
  by_cases hempty : rest = []
  · subst hempty
    refine ⟨⟨hone, hwhole, ?_, ?_⟩, ?_, ?_⟩
    · exact fun digits h => absurd h (by simp)
    · exact fun digits h => absurd h (by simp)
    · simp [Numeral.text, Numeral.fractionText, Numeral.exponentText, scientificText, Text.writeNat]
    · rw [value_numeral]
      change digitsAt ([first] ++ []) ((1 : Nat) + (point - 1)) = _
      rw [List.append_nil]
      congr 1
      omega
  · rw [if_neg hempty]
    have hlength : ¬ rest.length + 1 ≤ 1 := by
      have := List.length_pos_iff.2 hempty
      omega
    refine ⟨⟨hone, hwhole, ?_, ?_⟩, ?_, ?_⟩
    · intro digits h c hc
      rw [← Option.mem_some_iff.1 h] at hc
      exact hdigits c (List.mem_cons_of_mem _ hc)
    · exact fun digits h => Option.mem_some_iff.1 h ▸ hempty
    · rw [scientificText, List.length_cons, if_neg hlength]
      simp [Numeral.text, Numeral.fractionText, Numeral.exponentText, Text.writeNat]
    · rw [value_numeral]
      change digitsAt ([first] ++ rest) ((1 : Nat) + (point - 1)) = _
      rw [List.singleton_append]
      congr 1
      omega

end Notations

/-! ## Styles -/

/-- The text of a number other than zero, sign aside. -/
def Style.bodyOf (style : Style) (d : Decimal) : List Char :=
  if style.positional (d.point - 1) then
    positionalText style.keepsPoint d.significantDigits d.point
  else scientificText d.significantDigits d.point

/-- A positive decimal is written as a numeral with a point or an exponent. -/
theorem exists_writes_bodyOf {style : Style} (hstyle : style.keepsPoint = true) {d : Decimal}
    (h : d.coefficient ≠ 0) :
    ∃ n, (n.fraction?.isSome ∨ n.exponent?.isSome) ∧
      Writes n (style.bodyOf d) d.significantDigits d.point := by
  obtain ⟨first, rest, hdigits, hfirst⟩ := exists_significantDigits_eq_cons h
  have hall : ∀ c ∈ first :: rest, c.isDigit = true := fun c hc =>
    isDigit_of_mem_significantDigits (hdigits ▸ hc)
  rw [Style.bodyOf, hstyle, hdigits]
  by_cases hpositional : style.positional (d.point - 1) = true
  · rw [if_pos hpositional]
    rcases le_or_gt d.point 0 with hpoint | hpoint
    · exact ⟨_, .inl rfl, writes_positional_of_nonpos hall true hpoint⟩
    · obtain ⟨n, hfraction, hn⟩ := exists_writes_positional_of_pos hfirst hall hpoint
      exact ⟨n, .inl hfraction, hn⟩
  · rw [if_neg hpositional]
    exact ⟨_, .inr rfl, writes_scientific hall d.point⟩

/-- A finite number is written as a numeral with a point or an exponent, after a minus if it is
negative, and the decimal of the numeral reads back as the number. -/
theorem exists_numeral_write {style : Style} (hstyle : style.keepsPoint = true) {x : Binary64}
    (h : x.isFinite) :
    ∃ n : Numeral, n.Proper ∧ (n.fraction?.isSome ∨ n.exponent?.isSome) ∧
      style.write x = (if x.isNegative then '-' :: n.text else n.text) ∧
      n.decimal.toBinary64 x.isNegative = x := by
  by_cases hzero : x.isZero = true
  · have hmagnitude : x.magnitude = 0 := of_decide_eq_true hzero
    have hproper : Numeral.Proper ⟨['0'], some ['0'], none⟩ :=
      (Numeral.proper_writeNat 0).point_zero
    refine ⟨_, hproper, .inl rfl, ?_, ?_⟩
    · simp only [Style.write, if_pos hzero, hstyle]
      rfl
    · change Binary64.ofMagnitude x.isNegative 0 = x
      rw [← hmagnitude]
      exact x.ofMagnitude_isNegative_magnitude
  · have hsignificand : x.significand ≠ 0 := fun h =>
      hzero (decide_eq_true (Binary64.significand_eq_zero_iff.1 h))
    have hread := toBinary64_shortest h hsignificand style.tie
    obtain ⟨n, hparts, hn⟩ := exists_writes_bodyOf hstyle
      (coefficient_shortest_ne_zero h hsignificand style.tie)
    refine ⟨n, hn.proper, hparts, ?_, ?_⟩
    · simp only [Style.write, if_neg hzero, hn.text_eq]
      rfl
    · rw [toBinary64_congr _ (hn.value_eq.trans (value_eq_digitsAt _).symm), hread]

end Decimal

end JsonRules
