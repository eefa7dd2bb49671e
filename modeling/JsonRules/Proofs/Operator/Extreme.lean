import JsonRules.Operator.Calculation
import JsonRules.Proofs.Value.Coercion
import JsonRules.Proofs.Value.Equality

/-!
# Least and greatest arguments

The least of some numbers is what is left when each of them is held against the best one so far and
takes its place if it is less. Equal numbers, and NaN, leave the best one where it is, so it depends
on the order of the numbers which one is left. But to be less is passed on from number to number. So
no number is less than the one that is left (`isExtreme_of_extreme?`), and two of which this is true
are equal, unless they are NaN (`IsExtreme.equals`). NaN is left only if it comes first
(`isNaN_of_extreme?`). The same holds of the greatest number.

Main statement: the operators give equal results for the same arguments in any order, unless just
one of the two lists starts with NaN (`Calculation.strictEquals_extremes_of_perm`).
-/

namespace JsonRules

namespace Number

variable {o : Ordering} {a b best : Number} {ns ns' : List Number}

/-! ## The number that is left -/

/-- The number that is left of the best one so far and the next, which takes its place if it
compares with it as given. -/
def better (o : Ordering) (best m : Number) : Number := if m.compare best = some o then m else best

/-- One of some numbers that none of them is preferred to. -/
structure IsExtreme (o : Ordering) (ns : List Number) (a : Number) : Prop where
  mem : a ∈ ns
  compare_ne : ∀ m ∈ ns, m.compare a ≠ some o

theorem IsExtreme.better (ho : o ≠ .eq) (h : IsExtreme o ns best) (m : Number) :
    IsExtreme o (ns ++ [m]) (better o best m) := by
  unfold Number.better
  by_cases hm : m.compare best = some o
  · rw [if_pos hm]
    refine ⟨List.mem_append_right ns (List.mem_singleton_self m), fun k hk hkm => ?_⟩
    rcases List.mem_append.1 hk with hk | hk
    · exact h.compare_ne k hk (compare_trans ho hkm hm)
    · obtain rfl := List.mem_singleton.1 hk
      exact compare_self_ne ho k hkm
  · rw [if_neg hm]
    refine ⟨List.mem_append_left [m] h.mem, fun k hk => ?_⟩
    rcases List.mem_append.1 hk with hk | hk
    · exact h.compare_ne k hk
    · obtain rfl := List.mem_singleton.1 hk
      exact hm

/-- Going through further numbers leaves one that none of all the numbers is preferred to. -/
theorem IsExtreme.foldl_better (ho : o ≠ .eq) (h : IsExtreme o ns best) (rest : List Number) :
    IsExtreme o (ns ++ rest) (rest.foldl (Number.better o) best) := by
  induction rest generalizing ns best with
  | nil => rwa [List.append_nil]
  | cons m rest ih =>
    rw [List.foldl_cons, ← List.singleton_append, ← List.append_assoc]
    exact ih (h.better ho m)

theorem extreme?_eq_none_iff : extreme? o ns = none ↔ ns = [] := by
  cases ns <;> simp [extreme?]

theorem isExtreme_of_extreme? (ho : o ≠ .eq) (h : extreme? o ns = some a) : IsExtreme o ns a := by
  cases ns with
  | nil => exact absurd h.symm (Option.some_ne_none a)
  | cons n rest =>
    obtain rfl : rest.foldl (better o) n = a := Option.some.inj h
    have hfirst : IsExtreme o [n] n := by
      refine ⟨List.mem_singleton_self n, fun m hm => ?_⟩
      obtain rfl := List.mem_singleton.1 hm
      exact compare_self_ne ho m
    exact hfirst.foldl_better ho rest

theorem IsExtreme.perm (hperm : ns.Perm ns') (h : IsExtreme o ns a) : IsExtreme o ns' a :=
  ⟨hperm.mem_iff.1 h.mem, fun m hm => h.compare_ne m (hperm.mem_iff.2 hm)⟩

/-- Of numbers that are not NaN only equal ones can be left. -/
theorem IsExtreme.equals (ho : o ≠ .eq) (ha : IsExtreme o ns a) (hb : IsExtreme o ns b)
    (hnan : a.isNaN = false) (hnan' : b.isNaN = false) : a.equals b = true := by
  obtain ⟨p, hp⟩ := exists_compare_iff.2 ⟨hnan, hnan'⟩
  have hab : p ≠ o := fun e => hb.compare_ne a ha.mem (e ▸ hp)
  have hba : p.swap ≠ o := fun e => ha.compare_ne b hb.mem (by rw [compare_swap a b, hp, ← e]; rfl)
  have heq : p = .eq := by cases p <;> cases o <;> simp_all
  rw [equals_iff, hp, heq]

theorem extreme?_cases_of_perm (ho : o ≠ .eq) (h : ns.Perm ns') :
    (extreme? o ns = none ∧ extreme? o ns' = none) ∨
      ∃ a b, extreme? o ns = some a ∧ extreme? o ns' = some b ∧
        (a.isNaN = false → b.isNaN = false → a.equals b = true) := by
  cases ha : extreme? o ns with
  | none =>
    obtain rfl := extreme?_eq_none_iff.1 ha
    exact .inl ⟨rfl, by rw [h.nil_eq.symm, ha]⟩
  | some a =>
    cases hb : extreme? o ns' with
    | none =>
      obtain rfl := extreme?_eq_none_iff.1 hb
      rw [h.eq_nil] at ha
      exact absurd ha.symm (Option.some_ne_none a)
    | some b =>
      have hextreme := (isExtreme_of_extreme? ho ha).perm h
      exact .inr ⟨a, b, rfl, rfl, hextreme.equals ho (isExtreme_of_extreme? ho hb)⟩

/-! ## NaN -/

theorem isNaN_better (o : Ordering) (best m : Number) : (better o best m).isNaN = best.isNaN := by
  unfold better
  by_cases hm : m.compare best = some o
  · obtain ⟨hnan, hnan'⟩ := exists_compare_iff.1 ⟨o, hm⟩
    rw [if_pos hm, hnan, hnan']
  · rw [if_neg hm]

theorem isNaN_foldl_better (o : Ordering) (best : Number) (rest : List Number) :
    (rest.foldl (better o) best).isNaN = best.isNaN := by
  induction rest generalizing best with
  | nil => rfl
  | cons m rest ih => rw [List.foldl_cons, ih, isNaN_better]

theorem isNaN_of_extreme? (h : extreme? o ns = some a) :
    a.isNaN = true ↔ ∃ n rest, ns = n :: rest ∧ n.isNaN = true := by
  cases ns with
  | nil => exact absurd h.symm (Option.some_ne_none a)
  | cons n rest =>
    obtain rfl : rest.foldl (better o) n = a := Option.some.inj h
    rw [isNaN_foldl_better]
    constructor
    · exact fun hn => ⟨n, rest, rfl, hn⟩
    · rintro ⟨_, _, ⟨⟩, hn⟩
      exact hn

end Number

/-! ## Values -/

namespace Value

variable {a b : Number}

theorem number?_toValue (h : a.toBinary64.isFinite = true) : a.toValue.number? = some a := by
  cases a with
  | int n => rfl
  | float x =>
    have hvalue : (Number.float x).toValue = float x := if_pos h
    rw [hvalue, number?]

theorem toValue_eq_null (h : a.toBinary64.isFinite = false) : a.toValue = null := by
  cases a with
  | int n => exact absurd (h.symm.trans (Number.isFinite_ofInt_toInt n)) Bool.false_ne_true
  | float x => exact if_neg (Bool.eq_false_iff.1 h)

/-- Equal numbers are strictly equal values, both of them absent if the numbers are infinite. -/
theorem strictEquals_toValue (h : a.equals b = true) :
    a.toValue.strictEquals b.toValue = true := by
  have hfinite := Binary64.isFinite_eq_of_equals (Number.equals_iff_toBinary64.1 h).1
  by_cases ha : a.toBinary64.isFinite = true
  · exact (strictEquals_number_iff (number?_toValue ha)).2 ⟨b, number?_toValue (hfinite ▸ ha), h⟩
  · rw [toValue_eq_null (Bool.eq_false_iff.2 ha),
      toValue_eq_null (hfinite ▸ Bool.eq_false_iff.2 ha)]
    exact strictEquals_null_iff.2 rfl

theorem toValue_of_isNaN (h : a.isNaN = true) : a.toValue = null := by
  refine toValue_eq_null (Bool.eq_false_iff.2 fun hfinite => ?_)
  exact absurd (h.symm.trans (Binary64.isNaN_of_isFinite hfinite)) (by decide)

/-- The first of some values is NaN. -/
def StartsWithNaN (args : List Value) : Prop := ∃ x rest, args = float x :: rest ∧ x.isNaN = true

theorem startsWithNaN_iff {args : List Value} {ns : List Number} (h : toNumbers? args = some ns) :
    StartsWithNaN args ↔ ∃ n rest, ns = n :: rest ∧ n.isNaN = true := by
  rw [toNumbers?_eq_some_iff] at h
  cases h with
  | nil => simp [StartsWithNaN]
  | @cons v n args ns hv _ =>
    have hnan := isNaN_iff_of_toNumber? hv
    constructor
    · rintro ⟨x, _, ⟨⟩, hx⟩
      exact ⟨n, ns, rfl, hnan.2 ⟨x, rfl, hx⟩⟩
    · rintro ⟨_, _, ⟨⟩, hn⟩
      obtain ⟨x, rfl, hx⟩ := hnan.1 hn
      exact ⟨x, args, rfl, hx⟩

end Value

/-! ## Operators -/

namespace Calculation

variable {args args' : List Value}

theorem strictEquals_extreme_of_perm {o : Ordering} (ho : o ≠ .eq) (hperm : args.Perm args')
    (hstart : Value.StartsWithNaN args ↔ Value.StartsWithNaN args') :
    (numberOrNull ((Value.toNumbers? args).bind (Number.extreme? o))).strictEquals
      (numberOrNull ((Value.toNumbers? args').bind (Number.extreme? o))) = true := by
  have hnull : Value.null.strictEquals .null = true := Value.strictEquals_null_iff.2 rfl
  rcases Value.toNumbers?_cases_of_perm hperm with ⟨hns, hns'⟩ | ⟨ns, ns', hns, hns', hnumbers⟩
  · rw [hns, hns']
    exact hnull
  · rw [Value.startsWithNaN_iff hns, Value.startsWithNaN_iff hns'] at hstart
    rw [hns, hns', Option.bind_some, Option.bind_some]
    rcases Number.extreme?_cases_of_perm ho hnumbers with ⟨ha, hb⟩ | ⟨a, b, ha, hb, hequals⟩
    · rw [ha, hb]
      exact hnull
    · -- What is left is NaN for both lists or for neither of them.
      rw [← Number.isNaN_of_extreme? ha, ← Number.isNaN_of_extreme? hb] at hstart
      rw [ha, hb]
      show a.toValue.strictEquals b.toValue = true
      by_cases hnan : a.isNaN = true
      · rw [Value.toValue_of_isNaN hnan, Value.toValue_of_isNaN (hstart.1 hnan)]
        exact hnull
      · exact Value.strictEquals_toValue (hequals (Bool.eq_false_iff.2 hnan)
          (Bool.eq_false_iff.2 (hstart.not.1 hnan)))

/-- The least and the greatest of some arguments are strictly equal to those of the same arguments
in another order, or absent together with them, unless just one of the two lists starts with NaN. -/
theorem strictEquals_extremes_of_perm (hperm : args.Perm args')
    (hstart : Value.StartsWithNaN args ↔ Value.StartsWithNaN args') :
    (apply .min args).strictEquals (apply .min args') = true ∧
      (apply .max args).strictEquals (apply .max args') = true :=
  ⟨strictEquals_extreme_of_perm (by decide) hperm hstart,
    strictEquals_extreme_of_perm (by decide) hperm hstart⟩

/-- NaN stands between a numeral and an integer. -/
def mixture : List Value := [.string " 1 ", .float .nan, .int 3]

theorem strictEquals_extremes_of_perm_mixture :
    mixture.Perm mixture.reverse ∧
      (apply .min mixture).strictEquals (apply .min mixture.reverse) = true ∧
      (apply .max mixture).strictEquals (apply .max mixture.reverse) = true := by
  have hperm := (List.reverse_perm mixture).symm
  have hstart : ¬ Value.StartsWithNaN mixture := by rintro ⟨_, _, ⟨⟩, _⟩
  have hstart' : ¬ Value.StartsWithNaN mixture.reverse := by rintro ⟨_, _, ⟨⟩, _⟩
  exact ⟨hperm, strictEquals_extremes_of_perm hperm (iff_of_false hstart hstart')⟩

/-- The least of NaN and one is absent, and that of one and NaN is one. -/
theorem strictEquals_extremes_not_perm :
    ¬ ∀ args args' : List Value, args.Perm args' →
      ((apply .min args = .null ∧ apply .min args' = .null) ∨
        (apply .min args).strictEquals (apply .min args') = true) ∧
      ((apply .max args = .null ∧ apply .max args' = .null) ∨
        (apply .max args).strictEquals (apply .max args') = true) := by
  intro h
  have hmin := (h [.float .nan, .int 1] [.int 1, .float .nan] (List.Perm.swap _ _ _)).1
  have hlast : apply .min [.int 1, .float .nan] = .int 1 := rfl
  rw [hlast] at hmin
  rcases hmin with ⟨-, hnull⟩ | hequal
  · cases hnull
  · exact absurd hequal (by decide)

end Calculation

end JsonRules
