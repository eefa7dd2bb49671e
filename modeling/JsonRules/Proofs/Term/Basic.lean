import JsonRules.Proofs.Related
import JsonRules.Term.Folding

/-!
# Structure of terms

Terms are proved things about by induction (`Term.induction`), with a hypothesis for the key, for
the default and for each argument. The functions that recur into defaults and arguments by functions
of their own are the same as mapping over them, and the lemmas here say so.

The term of a rule is related to the rule by its form: `Term.OfForm R rule t` says that `t` is built
as the form of `rule` has it, from terms that the inner rules are related to by `R`. The function
`Term.ofRuleWithin` is this relation one level after the other (`ofRuleWithin_succ_iff`).
-/

namespace JsonRules

namespace Term

/-- Induction on terms. A default and the arguments of a call are given together. -/
@[elab_as_elim, induction_eliminator]
theorem induction {motive : Term → Prop} (literal : ∀ value, motive (literal value))
    (reference : ∀ path default?, (∀ t ∈ default?, motive t) → motive (reference path default?))
    (lookup : ∀ key default?, motive key → (∀ t ∈ default?, motive t) →
      motive (lookup key default?))
    (call : ∀ op args, (∀ t ∈ args, motive t) → motive (call op args)) (t : Term) : motive t :=
  @Term.rec motive (fun default? => ∀ t ∈ default?, motive t) (fun args => ∀ t ∈ args, motive t)
    literal reference lookup call
    (fun _ h => absurd h (Option.not_mem_none _))
    (fun _ ih _ h => Option.mem_some_iff.1 h ▸ ih)
    (fun _ h => absurd h List.not_mem_nil)
    (fun _ _ ihHead ihTail t h => (List.mem_cons.1 h).elim (fun e => e ▸ ihHead) (ihTail t)) t

/-! ## Defaults and arguments -/

@[simp]
theorem optionFold_eq_map (default? : Option Term) : optionFold default? = default?.map fold := by
  cases default? <;> rfl

@[simp]
theorem allFold_eq_map (args : List Term) : allFold args = args.map fold := by
  induction args with
  | nil => rfl
  | cons t rest ih => rw [allFold, ih, List.map_cons]

theorem optionDepth_le_iff {default? : Option Term} {n : Nat} :
    optionDepth default? ≤ n ↔ ∀ t ∈ default?, t.depth ≤ n := by
  cases default? <;> simp [optionDepth]

theorem allDepth_le_iff {args : List Term} {n : Nat} :
    allDepth args ≤ n ↔ ∀ t ∈ args, t.depth ≤ n := by
  induction args with
  | nil => simp [allDepth]
  | cons t rest ih => rw [allDepth, Nat.max_le, ih, List.forall_mem_cons]

theorem depth_pos (t : Term) : 0 < t.depth := by
  cases t <;> simp [depth]

/-- The terms directly inside a term: the key before the default, arguments in order. -/
def subterms : Term → List Term
  | literal _ => []
  | reference _ default? => default?.toList
  | lookup key default? => key :: default?.toList
  | call _ args => args

theorem depth_le_iff {t : Term} {n : Nat} : t.depth ≤ n + 1 ↔ ∀ s ∈ t.subterms, s.depth ≤ n := by
  cases t with
  | literal value => simp [depth, subterms]
  | reference path default? =>
    rw [depth, Nat.add_le_add_iff_right, optionDepth_le_iff]
    simp [subterms]
  | lookup key default? =>
    rw [depth, Nat.add_le_add_iff_right, Nat.max_le, optionDepth_le_iff]
    simp [subterms]
  | call op args => rw [depth, Nat.add_le_add_iff_right, allDepth_le_iff, subterms]

theorem depth_lt_of_mem_subterms {s t : Term} (h : s ∈ t.subterms) : s.depth < t.depth := by
  obtain ⟨n, hn⟩ := Nat.exists_eq_add_one.2 t.depth_pos
  exact hn ▸ Nat.lt_succ_of_le (depth_le_iff.1 (Nat.le_of_eq hn) s h)

/-- A term is one level deeper than the deepest of the terms inside it, if there are any. -/
theorem depth_cases (t : Term) : t.depth = 1 ∨ ∃ s ∈ t.subterms, t.depth = s.depth + 1 := by
  obtain ⟨n, hn⟩ := Nat.exists_eq_add_one.2 t.depth_pos
  cases n with
  | zero => exact .inl hn
  | succ n =>
    have h : ¬ ∀ s ∈ t.subterms, s.depth ≤ n := fun h => by
      have := depth_le_iff.2 h
      omega
    push Not at h
    obtain ⟨s, hs, hlt⟩ := h
    have hle := depth_lt_of_mem_subterms hs
    exact .inr ⟨s, hs, by omega⟩

/-! ## Steps of folding -/

/-- What a variable becomes in a step of folding. -/
theorem mkLookup_cases (key : Term) (default? : Option Term) :
    (key.literal? = none ∧ mkLookup key default? = lookup key default?) ∨
      ∃ value, key = literal value ∧ mkLookup key default? = ofKey value default? := by
  cases key with
  | literal value => exact .inr ⟨value, rfl, rfl⟩
  | _ => exact .inl ⟨rfl, rfl⟩

/-- What a variable with a known key becomes: a variable with a known path, or else the default,
which is the absent value if there is none. -/
theorem ofKey_cases (key : Value) (default? : Option Term) :
    (∃ text, key.pathText? = some text ∧
      ofKey key default? = reference (.ofString text) default?) ∨
      key.pathText? = none ∧ ofKey key default? = default?.getD (literal .null) := by
  unfold ofKey
  cases key.pathText? with
  | some text => exact .inl ⟨text, rfl, rfl⟩
  | none => exact .inr ⟨rfl, rfl⟩

theorem eq_literal_of_literal? {t : Term} {value : Value} (h : t.literal? = some value) :
    t = literal value := by
  cases t with
  | literal v => rw [Option.some.inj h]
  | _ => exact absurd h.symm (Option.some_ne_none value)

theorem eq_map_literal_of_literals? {args : List Term} {values : List Value}
    (h : literals? args = some values) : args = values.map literal := by
  induction args generalizing values with
  | nil =>
    obtain rfl := Option.some.inj h
    rfl
  | cons t rest ih =>
    simp only [literals?, List.mapM_cons, Option.bind_eq_bind, Option.bind_eq_some_iff] at h
    obtain ⟨value, ht, values, hrest, e⟩ := h
    obtain rfl := Option.some.inj e
    rw [eq_literal_of_literal? ht, List.map_cons, ih hrest]

/-- What a call becomes in a step of folding. -/
theorem mkCall_cases (op : Operator) (args : List Term) :
    (constantCall? op args = none ∧ mkCall op args = call op args) ∨
      ∃ (c : Calculation) (values : List Value), op = .eager (.calculation c) ∧
        args = values.map literal ∧ mkCall op args = literal (c.apply values) := by
  unfold mkCall
  cases h : constantCall? op args with
  | none => exact .inl ⟨rfl, rfl⟩
  | some value =>
    unfold constantCall? calculation? at h
    split at h
    · rename_i c values hc hvalues
      split at hc
      · refine .inr ⟨c, values, by rw [Option.some.inj hc], eq_map_literal_of_literals? hvalues, ?_⟩
        rw [Option.some.inj h]
      · exact absurd hc.symm (Option.some_ne_none c)
    · exact absurd h.symm (Option.some_ne_none value)

/-! ## Terms of rules -/

/-- A term is built as the form of a rule has it, from terms that the rules inside are related to.
-/
inductive OfForm (R : Value → Term → Prop) (rule : Value) : Term → Prop where
  | literal (h : Form.ofValue rule = .ok .literal) : OfForm R rule (literal rule)
  | reference {text : String} {default? : Option Value} {t? : Option Term}
      (h : Form.ofValue rule = .ok (.reference (.path text) default?))
      (hdefault : Option.Rel R default? t?) : OfForm R rule (reference (.ofString text) t?)
  | lookup {keyRule : Value} {key : Term} {default? : Option Value} {t? : Option Term}
      (h : Form.ofValue rule = .ok (.reference (.computed keyRule) default?)) (hkey : R keyRule key)
      (hdefault : Option.Rel R default? t?) : OfForm R rule (lookup key t?)
  | call {op : Operator} {args : List Value} {terms : List Term}
      (h : Form.ofValue rule = .ok (.call op args)) (hargs : List.Forall₂ R args terms) :
      OfForm R rule (call op terms)

/-- A rule with a level left has the term that its form says, the terms of the rules inside being
those that they have with one level less. -/
theorem ofRuleWithin_succ_iff {limit levels : Nat} {rule : Value} {t : Term} :
    ofRuleWithin limit (levels + 1) rule = .ok t ↔
      OfForm (fun inner s => ofRuleWithin limit levels inner = .ok s) rule t := by
  rw [ofRuleWithin]
  constructor
  · intro h
    obtain ⟨form, hform, h⟩ := except_bind_eq_ok_iff.1 h
    match form with
    | .literal =>
      obtain rfl := Except.ok.inj h
      exact .literal hform
    | .reference (.path text) default? =>
      obtain ⟨t?, hdefault, h⟩ := except_bind_eq_ok_iff.1 h
      obtain rfl := Except.ok.inj h
      exact .reference hform (option_mapM_eq_ok_iff.1 hdefault)
    | .reference (.computed keyRule) default? =>
      obtain ⟨key, hkey, h⟩ := except_bind_eq_ok_iff.1 h
      obtain ⟨t?, hdefault, h⟩ := except_bind_eq_ok_iff.1 h
      obtain rfl := Except.ok.inj h
      exact .lookup hform hkey (option_mapM_eq_ok_iff.1 hdefault)
    | .call op args =>
      obtain ⟨terms, hargs, h⟩ := except_bind_eq_ok_iff.1 h
      obtain rfl := Except.ok.inj h
      exact .call hform (list_mapM_eq_ok_iff.1 hargs)
  · intro h
    cases h with
    | literal hform => exact except_bind_eq_ok hform rfl
    | reference hform hdefault =>
      refine except_bind_eq_ok hform ?_
      exact except_bind_eq_ok (option_mapM_eq_ok_iff.2 hdefault) rfl
    | lookup hform hkey hdefault =>
      refine except_bind_eq_ok hform ?_
      refine except_bind_eq_ok hkey ?_
      exact except_bind_eq_ok (option_mapM_eq_ok_iff.2 hdefault) rfl
    | call hform hargs =>
      refine except_bind_eq_ok hform ?_
      exact except_bind_eq_ok (list_mapM_eq_ok_iff.2 hargs) rfl

end Term

end JsonRules
