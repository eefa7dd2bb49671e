import JsonRules.Proofs.Value.Number
import JsonRules.Value.Coercion
import Mathlib.Data.List.Perm.Basic

/-!
# Values as numbers

Values are the same numbers in whatever order they are taken (`toNumbers?_cases_of_perm`), and only
a float can be NaN (`isNaN_iff_of_toNumber?`): no text is read as one.
-/

namespace JsonRules

theorem Text.isFinite_of_readBinary64? {cs : List Char} {x : Binary64}
    (h : readBinary64? cs = some x) : x.isFinite = true := by
  unfold readBinary64? at h
  split at h
  · obtain ⟨hfinite, hx⟩ := Option.ite_none_right_eq_some.1 h
    exact Option.some.inj hx ▸ hfinite
  · exact absurd h.symm (Option.some_ne_none x)

namespace Value

variable {v : Value} {n : Number} {args args' : List Value} {ns ns' : List Number}

/-- A value is NaN as a number only if it is a float that is. -/
theorem isNaN_iff_of_toNumber? (h : v.toNumber? = some n) :
    n.isNaN = true ↔ ∃ x, v = float x ∧ x.isNaN = true := by
  have hint : ∀ m, (Number.int m).isNaN = false := Number.isNaN_ofInt_toInt
  cases v with
  | int m =>
    obtain rfl := Option.some.inj h
    simp [hint]
  | float x =>
    obtain rfl := Option.some.inj h
    simp [Number.isNaN, Number.toBinary64]
  | string s =>
    have hnan : n.isNaN = false := by
      rw [toNumber?, numberOfText?] at h
      split at h
      · exact Option.some.inj h ▸ hint _
      · obtain ⟨x, hx, rfl⟩ := Option.map_eq_some_iff.1 h
        exact Binary64.isNaN_of_isFinite (Text.isFinite_of_readBinary64? hx)
    simp [hnan]
  | _ => exact absurd h.symm (Option.some_ne_none n)

theorem toNumbers?_eq_some_iff :
    toNumbers? args = some ns ↔ List.Forall₂ (fun v n => v.toNumber? = some n) args ns := by
  induction args generalizing ns with
  | nil => simp [toNumbers?, eq_comm]
  | cons v rest ih =>
    rw [toNumbers?] at ih ⊢
    simp only [List.mapM_cons, Option.bind_eq_bind, Option.bind_eq_some_iff, ih,
      List.forall₂_cons_left_iff]
    constructor
    · rintro ⟨n, hn, ns, hns, e⟩
      exact ⟨n, ns, hn, hns, (Option.some.inj e).symm⟩
    · rintro ⟨n, ns, hn, hns, rfl⟩
      exact ⟨n, hn, ns, hns, rfl⟩

/-- Values in another order are the same numbers in another order. -/
theorem exists_toNumbers?_of_perm (h : args.Perm args') (hns : toNumbers? args' = some ns') :
    ∃ ns, toNumbers? args = some ns ∧ ns.Perm ns' := by
  obtain ⟨ns, hns, hperm⟩ := List.perm_comp_forall₂ h (toNumbers?_eq_some_iff.1 hns)
  exact ⟨ns, toNumbers?_eq_some_iff.2 hns, hperm⟩

theorem toNumbers?_cases_of_perm (h : args.Perm args') :
    (toNumbers? args = none ∧ toNumbers? args' = none) ∨
      ∃ ns ns', toNumbers? args = some ns ∧ toNumbers? args' = some ns' ∧ ns.Perm ns' := by
  cases hns' : toNumbers? args' with
  | none =>
    refine .inl ⟨Option.eq_none_iff_forall_ne_some.2 fun ns hns => ?_, rfl⟩
    obtain ⟨ns', hsome, -⟩ := exists_toNumbers?_of_perm h.symm hns
    exact Option.some_ne_none ns' (hsome.symm.trans hns')
  | some ns' =>
    obtain ⟨ns, hns, hperm⟩ := exists_toNumbers?_of_perm h hns'
    exact .inr ⟨ns, ns', hns, rfl, hperm⟩

end Value

end JsonRules
