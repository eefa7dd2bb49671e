import JsonRules.Text.Numeral
import Mathlib.Data.Nat.Basic
import Mathlib.Tactic.Ring

/-!
# Digits

A list of decimal digits stands for a number, and the digits of a number stand for it
(`digitsValue_writeNat`); they are all digits and do not start with a zero.
-/

namespace JsonRules

namespace Text

theorem foldl_digitsValue (n : Nat) (cs : List Char) :
    cs.foldl (fun n c => 10 * n + digitValue c) n = n * 10 ^ cs.length + digitsValue cs := by
  unfold digitsValue
  induction cs generalizing n with
  | nil => simp
  | cons c rest ih =>
    rw [List.foldl_cons, List.foldl_cons, ih, ih (10 * 0 + digitValue c), List.length_cons]
    ring

theorem digitsValue_append (cs ds : List Char) :
    digitsValue (cs ++ ds) = digitsValue cs * 10 ^ ds.length + digitsValue ds := by
  rw [digitsValue, List.foldl_append, foldl_digitsValue]
  rfl

theorem digitsValue_zeros (n : Nat) : digitsValue (List.replicate n '0') = 0 := by
  induction n with
  | zero => rfl
  | succ n ih =>
    rw [List.replicate_succ', digitsValue_append, ih]
    rfl

/-- The digits of a number stand for it. -/
theorem digitsValue_writeNat (n : Nat) : digitsValue (writeNat n) = n :=
  Nat.ofDigitChars_ten_toDigits

theorem isDigit_of_mem_writeNat {n : Nat} {c : Char} (h : c ∈ writeNat n) : c.isDigit = true :=
  Nat.isDigit_of_mem_toDigits (by decide) (Nat.le_refl 10) h

theorem writeNat_ne_nil (n : Nat) : writeNat n ≠ [] := Nat.toDigits_ne_nil

theorem digitChar_ne_zero : ∀ n < 10, n ≠ 0 → n.digitChar ≠ '0' := by decide

/-- The digits of a positive number do not start with a zero. -/
theorem exists_writeNat_eq_cons {n : Nat} (h : n ≠ 0) :
    ∃ first rest, writeNat n = first :: rest ∧ first ≠ '0' := by
  induction n using Nat.strong_induction_on with
  | _ n ih =>
    by_cases hlt : n < 10
    · exact ⟨_, [], Nat.toDigits_of_lt_base hlt, digitChar_ne_zero n hlt h⟩
    · have hdiv : n / 10 ≠ 0 := by omega
      obtain ⟨first, rest, hdigits, hfirst⟩ := ih (n / 10) (by omega) hdiv
      have hsplit : writeNat n = writeNat (n / 10) ++ [(n % 10).digitChar] :=
        Nat.toDigits_of_base_le (by decide) (Nat.le_of_not_lt hlt)
      exact ⟨first, rest ++ [(n % 10).digitChar], by rw [hsplit, hdigits, List.cons_append], hfirst⟩

end Text

end JsonRules
