import JsonRules.Proofs.Term.Prepared

/-!
# Nesting of decompiled rules

A term is written as a rule with a list of arguments in every call. A call whose single argument was
not in a list is therefore nested one level deeper than it was, and nothing else is nested deeper:
folding only takes levels away. So a rule is at most twice as nested when it is compiled and
decompiled (`nesting_toRule_prepared_le`).
-/

namespace JsonRules

/-! ## Nesting inside a rule -/

namespace Form

variable {rule : Value} {form : Form}

/-- The rules inside a rule are less nested than the rule. -/
theorem nesting_lt_of_mem_rules {inner : Value} (h : ofValue rule = .ok form)
    (hinner : inner ∈ form.rules) : inner.nesting < rule.nesting := by
  obtain ⟨name, body, rfl, hbody⟩ := exists_singleton_of_mem_rules h hinner
  have hle : inner.nesting ≤ body.nesting :=
    hbody (Value.hereditary_nesting_le body.nesting) (Nat.le_refl _)
  exact Nat.lt_succ_of_le (Nat.le_trans hle (Nat.le_max_left _ _))

/-- What is no literal is an object. -/
theorem nesting_pos_of_ofValue (h : ofValue rule = .ok form) (hform : form ≠ .literal) :
    0 < rule.nesting := by
  cases rule with
  | object members => exact Nat.succ_pos _
  | _ => exact absurd (Except.ok.inj h).symm hform

end Form

/-- The result of a calculation is at most one level more nested than its arguments: merging puts
them into a list. -/
theorem Calculation.nesting_apply_le (c : Calculation) {args : List Value} {n : Nat}
    (h : ∀ v ∈ args, v.nesting ≤ n) : (c.apply args).nesting ≤ n + 1 := by
  rw [apply]
  rcases compute_isScalar_or_merge c (c.arity.trim args) with hscalar | hmerge
  · cases hv : c.compute (c.arity.trim args) with
    | array items =>
      rw [hv] at hscalar
      exact absurd hscalar.1 (Option.some_ne_none items)
    | object members =>
      rw [hv] at hscalar
      exact absurd hscalar.2 (Option.some_ne_none members)
    | _ => exact Nat.zero_le _
  · rw [hmerge, Value.nesting, Nat.add_le_add_iff_right, Value.allNesting_le_iff]
    intro item hitem
    obtain ⟨v, hv, hmem⟩ := List.mem_flatMap.1 hitem
    exact of_mem_mergeItems (Value.hereditary_nesting_le n) (h v (mem_of_mem_trim hv)) hmem

namespace Term

/-! ## Nesting of what rules are put together to -/

theorem nesting_variableRule_le {path : Value} {default? : Option Value} {n : Nat}
    (hpath : path.nesting ≤ n) (hdefault : ∀ v ∈ default?, v.nesting ≤ n) :
    (Arena.variableRule path default?).nesting ≤ n + 2 := by
  cases default? with
  | none =>
    simp only [Arena.variableRule, Value.singleton, Value.nesting, Value.membersNesting]
    omega
  | some default =>
    have := hdefault default rfl
    simp only [Arena.variableRule, Value.singleton, Value.nesting, Value.membersNesting,
      Value.allNesting]
    omega

theorem nesting_callRule_le (name : String) {args : List Value} {n : Nat}
    (h : ∀ v ∈ args, v.nesting ≤ n) :
    (Value.singleton name (.array args)).nesting ≤ n + 2 := by
  have := Value.allNesting_le_iff.2 h
  simp only [Value.singleton, Value.nesting, Value.membersNesting]
  omega

variable {foldConstants : Bool} {n : Nat}

theorem nesting_ofKey_le (key : Value) {default? : Option Term}
    (h : ∀ t ∈ default?, t.toRule.nesting ≤ n) : (ofKey key default?).toRule.nesting ≤ n + 2 := by
  rcases ofKey_cases key default? with ⟨text, -, e⟩ | ⟨-, e⟩
  · rw [e, toRule, optionToRule_eq_map]
    exact nesting_variableRule_le (Nat.zero_le n) (Option.forall_mem_map.2 h)
  · cases default? with
    | none =>
      rw [e]
      exact Nat.zero_le _
    | some t =>
      rw [e]
      exact Nat.le_add_right_of_le (h t rfl)

theorem nesting_prepared_lookup_le {key : Term} {default? : Option Term}
    (hkey : (key.prepared foldConstants).toRule.nesting ≤ n)
    (hdefault : ∀ t ∈ default?, (t.prepared foldConstants).toRule.nesting ≤ n) :
    ((lookup key default?).prepared foldConstants).toRule.nesting ≤ n + 2 := by
  have hprepared : ∀ t ∈ default?.map (prepared foldConstants), t.toRule.nesting ≤ n :=
    Option.forall_mem_map.2 hdefault
  cases h : (if foldConstants then (key.prepared foldConstants).literal? else none) with
  | none =>
    rw [(prepared_lookup_of_none h default?).1, toRule, optionToRule_eq_map]
    exact nesting_variableRule_le hkey (Option.forall_mem_map.2 hprepared)
  | some value =>
    rw [(prepared_lookup_of_some h default?).1]
    exact nesting_ofKey_le value hprepared

theorem nesting_prepared_call_le {op : Operator} {args : List Term}
    (hargs : ∀ t ∈ args, (t.prepared foldConstants).toRule.nesting ≤ n) :
    ((call op args).prepared foldConstants).toRule.nesting ≤ n + 2 := by
  have hprepared : ∀ t ∈ args.map (prepared foldConstants), t.toRule.nesting ≤ n :=
    List.forall_mem_map.2 hargs
  cases h : (if foldConstants then constantCall? op (args.map (prepared foldConstants))
      else none) with
  | none =>
    rw [(prepared_call_of_none h).1, toRule, allToRule_eq_map]
    exact nesting_callRule_le op.name (List.forall_mem_map.2 hprepared)
  | some value =>
    rw [(prepared_call_of_some h).1]
    have hsome : constantCall? op (args.map (prepared foldConstants)) = some value := by
      cases foldConstants with
      | false => exact absurd h.symm (Option.some_ne_none value)
      | true => exact h
    rcases mkCall_cases op (args.map (prepared foldConstants)) with
      ⟨hnone, -⟩ | ⟨c, values, -, hvalues, e⟩
    · exact absurd (hsome.symm.trans hnone) (Option.some_ne_none value)
    · rw [mkCall, hsome] at e
      obtain rfl : value = c.apply values := Term.literal.inj e
      rw [hvalues] at hprepared
      exact Nat.le_succ_of_le (c.nesting_apply_le (List.forall_mem_map.1 hprepared))

/-- A rule is at most twice as nested when it has been compiled and decompiled. -/
theorem nesting_toRule_prepared_le {limit levels : Nat} {rule : Value} {t : Term}
    (h : ofRuleWithin limit levels rule = .ok t) :
    (t.prepared foldConstants).toRule.nesting ≤ 2 * rule.nesting := by
  induction levels generalizing rule t with
  | zero => exact absurd h (by simp [ofRuleWithin])
  | succ levels ih =>
    -- all rules inside are less nested, so the bound for them leaves two levels for what is around
    have hinner : ∀ {form : Form}, Form.ofValue rule = .ok form → form ≠ .literal →
        ∃ n, rule.nesting = n + 1 ∧ ∀ inner ∈ form.rules, ∀ s,
          ofRuleWithin limit levels inner = .ok s →
          (s.prepared foldConstants).toRule.nesting ≤ 2 * n := by
      intro form hform hne
      have hpos := Form.nesting_pos_of_ofValue hform hne
      obtain ⟨n, hn⟩ := Nat.exists_eq_succ_of_ne_zero (Nat.ne_of_gt hpos)
      refine ⟨n, hn, fun inner hmem s hs => ?_⟩
      have hlt := Form.nesting_lt_of_mem_rules hform hmem
      have := ih hs
      omega
    cases ofRuleWithin_succ_iff.1 h with
    | literal hform =>
      rw [prepared_literal, toRule]
      omega
    | @reference path default? t? hform hdefault =>
      obtain ⟨n, hn, hrules⟩ := hinner hform (by simp)
      rw [hn, prepared_reference, toRule, optionToRule_eq_map]
      refine nesting_variableRule_le (Nat.zero_le _) ?_
      refine Option.forall_mem_map.2 (Option.forall_mem_map.2 ?_)
      exact forall_of_option_rel hdefault fun inner hmem s hs =>
        hrules inner (Option.mem_toList.2 hmem) s hs
    | @lookup keyRule key default? t? hform hkey hdefault =>
      obtain ⟨n, hn, hrules⟩ := hinner hform (by simp)
      rw [hn]
      refine nesting_prepared_lookup_le (hrules keyRule List.mem_cons_self key hkey) ?_
      exact forall_of_option_rel hdefault fun inner hmem s hs =>
        hrules inner (List.mem_cons_of_mem _ (Option.mem_toList.2 hmem)) s hs
    | @call op args terms hform hargs =>
      obtain ⟨n, hn, hrules⟩ := hinner hform (by simp)
      rw [hn]
      exact nesting_prepared_call_le (forall_of_forall₂ hargs hrules)

end Term

end JsonRules
