import JsonRules.Operator.Calculation
import JsonRules.Proofs.Value.Coercion
import Mathlib.Algebra.BigOperators.Group.List.Basic

/-!
# Arithmetic on integers

Sums, products and differences of integers are exact or floats, never integers that have wrapped
around. A sum is taken from left to right, and its running value can become a float on the way, which
it stays (`foldl_combine_float`) even if what follows leads back into range. So it is the partial
results that decide: the result is an integer if and only if all of them are in range
(`exactIf_foldl`), and then it is exact.

Main statement: this holds for the operators on whatever values count as integers
(`Calculation.exactIf_of_integers`).
-/

namespace JsonRules

/-- A number that is in the range of 64-bit integers. -/
def FitsInt64 (n : Int) : Prop := -2 ^ 63 ≤ n ∧ n < 2 ^ 63

instance (n : Int) : Decidable (FitsInt64 n) := inferInstanceAs (Decidable (_ ∧ _))

theorem fitsInt64_iff {n : Int} : FitsInt64 n ↔ (int64? n).isSome = true := by
  rw [int64?_isSome_iff, FitsInt64, Int64.toInt_minValue, Int64.toInt_maxValue]
  omega

theorem fitsInt64_toInt (i : Int64) : FitsInt64 i.toInt := ⟨i.le_toInt, i.toInt_lt⟩

namespace Number

/-- An exact integer if a condition holds, and a float otherwise. -/
structure ExactIf (a : Number) (fits : Prop) (exact : Int) : Prop where
  integer : fits → ∃ n : Int64, n.toInt = exact ∧ a = int n
  rounded : ¬ fits → ∃ x, a = float x

theorem exactIf_int64? (n : Int) (x : Binary64) :
    ExactIf (match int64? n with | some i => int i | none => float x) (FitsInt64 n) n := by
  cases h : int64? n with
  | none =>
    have hfits : ¬ FitsInt64 n := by rw [fitsInt64_iff, h]; simp
    exact ⟨fun h => absurd h hfits, fun _ => ⟨x, rfl⟩⟩
  | some i =>
    have hfits : FitsInt64 n := by rw [fitsInt64_iff, h, Option.isSome_some]
    exact ⟨fun _ => ⟨i, toInt_of_int64?_eq_some h, rfl⟩, fun h => absurd hfits h⟩

section Combinations

variable (f : Int → Int → Int) (rounded : Binary64 → Binary64 → Binary64)

/-- An operation on two integers is exact if its result is in range. -/
theorem exactIf_combine (m n : Int64) :
    ExactIf (combine (fun a b => int64? (f a.toInt b.toInt)) rounded (int m) (int n))
      (FitsInt64 (f m.toInt n.toInt)) (f m.toInt n.toInt) :=
  exactIf_int64? _ _

/-- Once the running value is a float it stays one. -/
theorem foldl_combine_float (exact : Int64 → Int64 → Option Int64) (x : Binary64)
    (numbers : List Number) : ∃ y, numbers.foldl (combine exact rounded) (float x) = float y := by
  induction numbers generalizing x with
  | nil => exact ⟨x, rfl⟩
  | cons n rest ih =>
    have hstep : combine exact rounded (float x) n = float (rounded x n.toBinary64) := by
      cases n <;> rfl
    rw [List.foldl_cons, hstep]
    exact ih _

/-- An operation carried through a list of integers is exact if all partial results are in range. -/
theorem exactIf_foldl (m : Int64) (ns : List Int64) :
    ExactIf
      ((ns.map int).foldl (combine (fun a b => int64? (f a.toInt b.toInt)) rounded) (int m))
      (∀ p, p <+: ns → FitsInt64 ((p.map Int64.toInt).foldl f m.toInt))
      ((ns.map Int64.toInt).foldl f m.toInt) := by
  induction ns generalizing m with
  | nil =>
    refine ⟨fun _ => ⟨m, rfl, rfl⟩, fun h => absurd (fun p hp => ?_) h⟩
    rw [List.prefix_nil.1 hp]
    exact fitsInt64_toInt m
  | cons n rest ih =>
    have hstep := exactIf_combine f rounded m n
    rw [List.map_cons, List.foldl_cons, List.map_cons, List.foldl_cons]
    by_cases hfits : FitsInt64 (f m.toInt n.toInt)
    · obtain ⟨k, hk, hvalue⟩ := hstep.integer hfits
      have hprefixes : (∀ p, p <+: n :: rest → FitsInt64 ((p.map Int64.toInt).foldl f m.toInt)) ↔
          ∀ p, p <+: rest → FitsInt64 ((p.map Int64.toInt).foldl f k.toInt) := by
        constructor
        · intro h p hp
          have := h (n :: p) (List.prefix_cons_inj n |>.2 hp)
          rwa [List.map_cons, List.foldl_cons, ← hk] at this
        · intro h p hp
          rcases List.prefix_cons_iff.1 hp with rfl | ⟨q, rfl, hq⟩
          · exact fitsInt64_toInt m
          · rw [List.map_cons, List.foldl_cons, ← hk]
            exact h q hq
      rw [hvalue, hprefixes, ← hk]
      exact ih k
    · obtain ⟨x, hvalue⟩ := hstep.rounded hfits
      rw [hvalue]
      exact ⟨fun h => absurd (h [n] (by simp)) hfits, fun _ => foldl_combine_float rounded _ x _⟩

end Combinations

theorem exactIf_sum (ns : List Int64) :
    ExactIf (sum (ns.map int)) (∀ p, p <+: ns → FitsInt64 (p.map Int64.toInt).sum)
      (ns.map Int64.toInt).sum := by
  simp only [List.sum_eq_foldl]
  exact exactIf_foldl (· + ·) Binary64.add 0 ns

theorem exactIf_product {ns : List Int64} (h : ns ≠ []) :
    ∃ a, product? (ns.map int) = some a ∧
      ExactIf a (∀ p, p <+: ns → FitsInt64 (p.map Int64.toInt).prod) (ns.map Int64.toInt).prod := by
  -- The product starts with its first factor, as if it started with one.
  obtain ⟨n, rest, rfl⟩ := List.exists_cons_of_ne_nil h
  have hone : mul (int 1) (int n) = int n := by
    have hn : int64? ((1 : Int64).toInt * n.toInt) = some n := by
      rw [show (1 : Int64).toInt = 1 from rfl, one_mul, int64?_toInt]
    simp only [mul, combine, hn]
  refine ⟨((n :: rest).map int).foldl mul (int 1), ?_, ?_⟩
  · rw [List.map_cons, product?, List.foldl_cons, hone]
  · simp only [List.prod_eq_foldl]
    exact exactIf_foldl (· * ·) Binary64.mul 1 (n :: rest)

theorem exactIf_neg (n : Int64) : ExactIf (int n).neg (FitsInt64 (-n.toInt)) (-n.toInt) :=
  exactIf_int64? _ _

end Number

namespace Value

/-- The integer that a value is for arithmetic: an integer itself, or a text that is the numeral of
one, blanks around it aside. -/
def integer? : Value → Option Int64
  | int n => some n
  | string s => Text.readInt64? (Text.trim s.toList)
  | _ => none

/-- An exact integer if a condition holds, and a float or nothing otherwise. -/
structure ExactIf (v : Value) (fits : Prop) (exact : Int) : Prop where
  integer : fits → ∃ n : Int64, n.toInt = exact ∧ v = int n
  rounded : ¬ fits → v = null ∨ ∃ x, v = float x

theorem toNumber?_of_integer? {v : Value} {n : Int64} (h : v.integer? = some n) :
    v.toNumber? = some (.int n) := by
  cases v with
  | int m => rw [toNumber?, Option.some.inj h]
  | string s =>
    rw [integer?] at h
    simp only [toNumber?, numberOfText?, h]
  | _ => exact absurd h.symm (Option.some_ne_none n)

theorem toNumbers?_of_integers {args : List Value} {ns : List Int64}
    (h : List.Forall₂ (fun v n => v.integer? = some n) args ns) :
    toNumbers? args = some (ns.map .int) := by
  rw [toNumbers?_eq_some_iff, List.forall₂_map_right_iff]
  exact h.imp fun _ _ => toNumber?_of_integer?

end Value

namespace Calculation

theorem exactIf_numberOrNull {a : Number} {fits : Prop} {exact : Int} (h : a.ExactIf fits exact) :
    (numberOrNull (some a)).ExactIf fits exact := by
  constructor
  · intro hfits
    obtain ⟨n, hn, rfl⟩ := h.integer hfits
    exact ⟨n, hn, rfl⟩
  · intro hfits
    obtain ⟨x, rfl⟩ := h.rounded hfits
    show Value.ofFinite x = .null ∨ ∃ y, Value.ofFinite x = .float y
    unfold Value.ofFinite
    split
    · exact .inr ⟨x, rfl⟩
    · exact .inl rfl

/-- On arguments that count as integers, a sum is their exact sum if all partial sums are in range,
and likewise a product, the opposite of one argument and the difference of two. Otherwise it is no
integer at all. -/
theorem exactIf_of_integers {args : List Value} {ns : List Int64}
    (h : List.Forall₂ (fun v n => v.integer? = some n) args ns) :
    (apply .add args).ExactIf (∀ p, p <+: ns → FitsInt64 (p.map Int64.toInt).sum)
        (ns.map Int64.toInt).sum ∧
      (args ≠ [] →
        (apply .multiply args).ExactIf (∀ p, p <+: ns → FitsInt64 (p.map Int64.toInt).prod)
          (ns.map Int64.toInt).prod) ∧
      (∀ m, ns = [m] → (apply .subtract args).ExactIf (FitsInt64 (-m.toInt)) (-m.toInt)) ∧
      ∀ m n, ns = [m, n] →
        (apply .subtract args).ExactIf (FitsInt64 (m.toInt - n.toInt)) (m.toInt - n.toInt) := by
  have hnumbers := Value.toNumbers?_of_integers h
  have hsubtract : ns.length ≤ 2 →
      apply .subtract args = numberOrNull (Number.difference? (ns.map .int)) := by
    intro hlength
    show numberOrNull ((Value.toNumbers? (args.take 2)).bind Number.difference?) = _
    rw [List.take_of_length_le (h.length_eq ▸ hlength), hnumbers, Option.bind_some]
  refine ⟨?_, fun hargs => ?_, ?_, ?_⟩
  · have hsum : apply .add args = numberOrNull (some (Number.sum (ns.map .int))) := by
      show numberOrNull ((Value.toNumbers? args).map Number.sum) = _
      rw [hnumbers, Option.map_some]
    rw [hsum]
    exact exactIf_numberOrNull (Number.exactIf_sum ns)
  · have hns : ns ≠ [] := by
      rintro rfl
      exact hargs (List.forall₂_nil_right_iff.1 h)
    obtain ⟨a, ha, hexact⟩ := Number.exactIf_product hns
    have hproduct : apply .multiply args = numberOrNull (some a) := by
      show numberOrNull ((Value.toNumbers? args).bind Number.product?) = _
      rw [hnumbers, Option.bind_some, ha]
    rw [hproduct]
    exact exactIf_numberOrNull hexact
  · rintro m rfl
    rw [hsubtract (by simp)]
    exact exactIf_numberOrNull (Number.exactIf_neg m)
  · rintro m n rfl
    rw [hsubtract (by simp)]
    exact exactIf_numberOrNull (Number.exactIf_combine (· - ·) Binary64.sub m n)

/-- The greatest integer plus one is out of range, and taking the one away does not lead back. -/
theorem exactIf_of_integers_overflow :
    List.Forall₂ (fun v n => Value.integer? v = some n)
        [.string " 9223372036854775807", .int 1, .int (-1)] [Int64.maxValue, 1, -1] ∧
      FitsInt64 ([Int64.maxValue, 1, -1].map Int64.toInt).sum ∧
      (apply .add [.string " 9223372036854775807", .int 1, .int (-1)] = .null ∨
        ∃ x, apply .add [.string " 9223372036854775807", .int 1, .int (-1)] = .float x) := by
  have hintegers : List.Forall₂ (fun v n => Value.integer? v = some n)
      [.string " 9223372036854775807", .int 1, .int (-1)] [Int64.maxValue, 1, -1] := by
    refine .cons (by decide +kernel) (.cons rfl (.cons rfl .nil))
  refine ⟨hintegers, by decide, (exactIf_of_integers hintegers).1.rounded fun hfits => ?_⟩
  exact absurd (hfits [Int64.maxValue, 1] ⟨[-1], rfl⟩) (by decide)

end Calculation

end JsonRules
