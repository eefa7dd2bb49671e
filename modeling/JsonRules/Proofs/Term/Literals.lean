import JsonRules.Proofs.Term.Folding
import JsonRules.Proofs.Value.Basic

/-!
# Literals of terms

`Term.LiteralsIn P t` says that all literals of a term have a property. The literals of the term of
a rule have every hereditary property of the rule (`literalsIn_of_ofRuleWithin`). If the property is
compositional, the literals keep it when the term is folded (`LiteralsIn.fold`), and the rule that
the term is written as has it too (`LiteralsIn.toRule`).
-/

namespace JsonRules

open Value (Hereditary Compositional)

variable {P : Value → Prop}

/-! ## Results of calculations -/

namespace Calculation

theorem of_numberOrNull (hP : Compositional P) (n : Option Number) : P (numberOrNull n) := by
  match n with
  | none => exact hP.null
  | some (.int i) => exact hP.int i
  | some (.float x) => exact hP.ofFinite x

theorem of_mem_mergeItems (hP : Hereditary P) {v item : Value} (hv : P v)
    (h : item ∈ mergeItems v) : P item := by
  unfold mergeItems at h
  split at h
  · exact hP.item hv item h
  · exact List.mem_singleton.1 h ▸ hv

theorem mem_of_mem_trim {arity : Arity} {args : List Value} {v : Value} (h : v ∈ arity.trim args) :
    v ∈ args := by
  cases arity with
  | fixed n => exact List.mem_of_mem_take h
  | variadic => exact h

/-- Calculations hand a compositional property on from their arguments to their results. -/
theorem of_apply (hP : Compositional P) (c : Calculation) {args : List Value}
    (h : ∀ v ∈ args, P v) : P (c.apply args) := by
  rw [apply]
  cases c with
  | add => exact of_numberOrNull hP _
  | subtract => exact of_numberOrNull hP _
  | multiply => exact of_numberOrNull hP _
  | divide => exact of_numberOrNull hP _
  | remainder => exact of_numberOrNull hP _
  | min => exact of_numberOrNull hP _
  | max => exact of_numberOrNull hP _
  | cat => exact hP.string _
  | substr => exact hP.string _
  | merge =>
    refine hP.array ?_
    intro item hitem
    obtain ⟨v, hv, hmem⟩ := List.mem_flatMap.1 hitem
    exact of_mem_mergeItems hP.toHereditary (h v (mem_of_mem_trim hv)) hmem
  | _ => exact hP.bool _

end Calculation

/-! ## Rules inside a rule -/

namespace Form

/-- The rules that are inside a rule of some form. -/
def rules : Form → List Value
  | literal => []
  | reference (.path _) default? => default?.toList
  | reference (.computed rule) default? => rule :: default?.toList
  | call _ args => args

theorem of_variableParts (hP : Hereditary P) {body path : Value} {default? : Option Value}
    (h : variableParts body = .ok (path, default?)) (hbody : P body) :
    P path ∧ ∀ v ∈ default?, P v := by
  unfold variableParts at h
  split at h
  · obtain ⟨rfl, rfl⟩ := Prod.mk.inj (Except.ok.inj h)
    exact ⟨hP.null, fun v hv => absurd hv (Option.not_mem_none v)⟩
  · obtain ⟨rfl, rfl⟩ := Prod.mk.inj (Except.ok.inj h)
    exact ⟨hP.item hbody _ List.mem_cons_self,
      fun v hv => absurd hv (Option.not_mem_none v)⟩
  · obtain ⟨rfl, rfl⟩ := Prod.mk.inj (Except.ok.inj h)
    obtain ⟨hpath, hdefault⟩ := List.forall_mem_cons.1 (hP.item hbody)
    exact ⟨hpath, fun v hv => Option.mem_some_iff.1 hv ▸ hdefault _ List.mem_cons_self⟩
  · exact absurd h (by simp)
  · obtain ⟨rfl, rfl⟩ := Prod.mk.inj (Except.ok.inj h)
    exact ⟨hbody, fun v hv => absurd hv (Option.not_mem_none v)⟩

theorem of_mem_arguments (hP : Hereditary P) {body inner : Value} (hbody : P body)
    (h : inner ∈ arguments body) : P inner := by
  unfold arguments at h
  split at h
  · exact hP.item hbody inner h
  · exact List.mem_singleton.1 h ▸ hbody

/-- The rules inside a rule are parts of the value of its only member. -/
theorem exists_singleton_of_mem_rules {rule inner : Value} {form : Form}
    (h : ofValue rule = .ok form) (hinner : inner ∈ form.rules) :
    ∃ name body, rule = .singleton name body ∧
      ∀ {P : Value → Prop}, Hereditary P → P body → P inner := by
  unfold ofValue at h
  split at h
  · rename_i name body
    refine ⟨name, body, rfl, fun hP hbody => ?_⟩
    unfold ofMember at h
    split at h
    · obtain ⟨⟨path, default?⟩, hparts, h⟩ := except_bind_eq_ok_iff.1 h
      obtain ⟨key, hkey, h⟩ := except_bind_eq_ok_iff.1 h
      obtain rfl := Except.ok.inj h
      obtain ⟨hpath, hdefault⟩ := of_variableParts hP hparts hbody
      rcases keyOf_cases hkey with ⟨members, rfl, rfl⟩ | ⟨text, -, rfl⟩
      · rcases List.mem_cons.1 hinner with rfl | hmem
        · exact hpath
        · exact hdefault inner (Option.mem_toList.1 hmem)
      · exact hdefault inner (Option.mem_toList.1 hinner)
    · split at h
      · obtain rfl := Except.ok.inj h
        exact of_mem_arguments hP hbody hinner
      · exact absurd h (by simp)
  · exact absurd h (by simp)
  · obtain rfl := Except.ok.inj h
    exact absurd hinner List.not_mem_nil

/-- The rules inside a rule have its hereditary properties. -/
theorem of_mem_rules (hP : Hereditary P) {rule inner : Value} {form : Form}
    (h : ofValue rule = .ok form) (hrule : P rule) (hinner : inner ∈ form.rules) : P inner := by
  obtain ⟨name, body, rfl, hbody⟩ := exists_singleton_of_mem_rules h hinner
  exact hbody hP (hP.member hrule)

end Form

namespace Term

/-- All literals of the term have a property. -/
inductive LiteralsIn (P : Value → Prop) : Term → Prop where
  | literal {value : Value} (h : P value) : LiteralsIn P (literal value)
  | reference {path : Path} {default? : Option Term} (hdefault : ∀ t ∈ default?, LiteralsIn P t) :
      LiteralsIn P (reference path default?)
  | lookup {key : Term} {default? : Option Term} (hkey : LiteralsIn P key)
      (hdefault : ∀ t ∈ default?, LiteralsIn P t) : LiteralsIn P (lookup key default?)
  | call {op : Operator} {args : List Term} (hargs : ∀ t ∈ args, LiteralsIn P t) :
      LiteralsIn P (call op args)

theorem literalsIn_of_forall (h : ∀ v, P v) (t : Term) : t.LiteralsIn P := by
  induction t with
  | literal value => exact .literal (h value)
  | reference path default? ih => exact .reference ih
  | lookup key default? ihKey ih => exact .lookup ihKey ih
  | call op args ih => exact .call ih

/-- The literals of the term of a rule have the hereditary properties of the rule. -/
theorem literalsIn_of_ofRuleWithin (hP : Hereditary P) {limit levels : Nat} {rule : Value}
    {t : Term} (h : ofRuleWithin limit levels rule = .ok t) (hrule : P rule) :
    t.LiteralsIn P := by
  induction levels generalizing rule t with
  | zero => exact absurd h (by simp [ofRuleWithin])
  | succ levels ih =>
    cases ofRuleWithin_succ_iff.1 h with
    | literal hform => exact .literal hrule
    | reference hform hdefault =>
      refine .reference (forall_of_option_rel hdefault fun inner hmem _ hs => ih hs ?_)
      exact Form.of_mem_rules hP hform hrule (Option.mem_toList.2 hmem)
    | lookup hform hkey hdefault =>
      have hkeyRule := Form.of_mem_rules hP hform hrule List.mem_cons_self
      refine .lookup (ih hkey hkeyRule)
        (forall_of_option_rel hdefault fun inner hmem _ hs => ih hs ?_)
      exact Form.of_mem_rules hP hform hrule
        (List.mem_cons_of_mem _ (Option.mem_toList.2 hmem))
    | call hform hargs =>
      refine .call (forall_of_forall₂ hargs fun inner hmem _ hs => ih hs ?_)
      exact Form.of_mem_rules hP hform hrule hmem

/-! ## Folding -/

theorem LiteralsIn.mkCall (hP : Compositional P) (op : Operator) {args : List Term}
    (h : ∀ t ∈ args, LiteralsIn P t) : LiteralsIn P (mkCall op args) := by
  rcases mkCall_cases op args with ⟨-, e⟩ | ⟨c, values, -, rfl, e⟩
  · exact e ▸ .call h
  · rw [e]
    refine .literal (c.of_apply hP fun v hv => ?_)
    cases h (Term.literal v) (List.mem_map_of_mem hv) with
    | literal hvalue => exact hvalue

theorem LiteralsIn.mkLookup (hP : Compositional P) {key : Term} {default? : Option Term}
    (hkey : LiteralsIn P key) (h : ∀ t ∈ default?, LiteralsIn P t) :
    LiteralsIn P (mkLookup key default?) := by
  rcases mkLookup_cases key default? with ⟨-, e⟩ | ⟨value, -, e⟩
  · exact e ▸ .lookup hkey h
  · rw [e]
    rcases ofKey_cases value default? with ⟨text, -, e⟩ | ⟨-, e⟩
    · exact e ▸ .reference h
    · cases default? with
      | none => exact e ▸ .literal hP.null
      | some t => exact e ▸ h t rfl

/-- A compositional property of the literals of a term holds of the literals of the folded term. -/
theorem LiteralsIn.fold (hP : Compositional P) {t : Term} (h : t.LiteralsIn P) :
    t.fold.LiteralsIn P := by
  induction t with
  | literal value => exact h
  | reference path default? ih =>
    cases h with
    | reference hdefault =>
      rw [Term.fold, optionFold_eq_map]
      exact .reference (Option.forall_mem_map.2 fun t ht => ih t ht (hdefault t ht))
  | lookup key default? ihKey ih =>
    cases h with
    | lookup hkey hdefault =>
      rw [Term.fold, optionFold_eq_map]
      have hfolded := Option.forall_mem_map.2 fun t ht => ih t ht (hdefault t ht)
      exact .mkLookup hP (ihKey hkey) hfolded
  | call op args ih =>
    cases h with
    | call hargs =>
      rw [Term.fold, allFold_eq_map]
      exact .mkCall hP op (List.forall_mem_map.2 fun t ht => ih t ht (hargs t ht))

/-! ## Writing a term as a rule -/

theorem of_variableRule (hP : Compositional P) {path : Value} {default? : Option Value}
    (hpath : P path) (hdefault : ∀ v ∈ default?, P v) :
    P (Arena.variableRule path default?) := by
  cases default? with
  | none => exact hP.singleton hpath
  | some default =>
    refine hP.singleton (hP.array ?_)
    exact List.forall_mem_cons.2 ⟨hpath, List.forall_mem_singleton.2 (hdefault default rfl)⟩

/-- The rule of a term has the compositional properties of its literals. -/
theorem LiteralsIn.toRule (hP : Compositional P) {t : Term} (h : t.LiteralsIn P) : P t.toRule := by
  induction t with
  | literal value =>
    cases h with
    | literal hvalue => exact hvalue
  | reference path default? ih =>
    cases h with
    | reference hdefault =>
      rw [Term.toRule, optionToRule_eq_map]
      have hrules := Option.forall_mem_map.2 fun t ht => ih t ht (hdefault t ht)
      exact of_variableRule hP (hP.string _) hrules
  | lookup key default? ihKey ih =>
    cases h with
    | lookup hkey hdefault =>
      rw [Term.toRule, optionToRule_eq_map]
      have hrules := Option.forall_mem_map.2 fun t ht => ih t ht (hdefault t ht)
      exact of_variableRule hP (ihKey hkey) hrules
  | call op args ih =>
    cases h with
    | call hargs =>
      rw [Term.toRule, allToRule_eq_map]
      refine hP.singleton (hP.array ?_)
      exact List.forall_mem_map.2 fun t ht => ih t ht (hargs t ht)

end Term

end JsonRules
