import JsonRules.Proofs.Rule.Evaluation

/-!
# The limit of nesting

A limit of nesting only ever cuts off: whatever comes of a rule under a limit other than that it is
nested too deeply comes of it under every higher limit too (`Engine.apply_eq_of_maxDepth_le`). This
holds of an evaluation, which may never reach the rules that are nested most deeply, as well as of
compilation, which reaches all of them.

Both count the levels that are left and hand one less to each rule inside. So two runs with
different levels go the same way until the one with fewer of them is cut off, and from there on it
has no other result (`CutOff`). Being cut off in this sense is a `Simulation`, so operators need not
be looked at.
-/

namespace JsonRules

section CutOff

variable {α β : Type}

/-- There is no result because a rule is nested too deeply. -/
def TooDeep (x : Except RuleError α) : Prop := ∃ limit, x = .error (.tooDeep limit)

/-- The first result is the second one unless it has been cut off. -/
def CutOff (x y : Except RuleError α) : Prop := TooDeep x ∨ x = y

theorem not_tooDeep_ok (a : α) : ¬ TooDeep (.ok a : Except RuleError α) := by
  rintro ⟨limit, h⟩
  exact absurd h (by simp)

theorem TooDeep.bind {x : Except RuleError α} (h : TooDeep x) (f : α → Except RuleError β) :
    TooDeep (x >>= f) := by
  obtain ⟨limit, rfl⟩ := h
  exact ⟨limit, rfl⟩

theorem CutOff.bind {x y : Except RuleError α} {f g : α → Except RuleError β} (hx : CutOff x y)
    (hf : ∀ a, CutOff (f a) (g a)) : CutOff (x >>= f) (y >>= g) := by
  rcases hx with hdeep | rfl
  · exact .inl (hdeep.bind f)
  · cases x with
    | error e => exact .inr rfl
    | ok a => exact hf a

theorem CutOff.list_mapM {f g : α → Except RuleError β} (h : ∀ a, CutOff (f a) (g a))
    (xs : List α) : CutOff (xs.mapM f) (xs.mapM g) := by
  induction xs with
  | nil => exact .inr rfl
  | cons a rest ih =>
    rw [List.mapM_cons, List.mapM_cons]
    exact (h a).bind fun b => ih.bind fun bs => .inr rfl

theorem CutOff.option_mapM {f g : α → Except RuleError β} (h : ∀ a, CutOff (f a) (g a))
    (x? : Option α) : CutOff (x?.mapM f) (x?.mapM g) := by
  cases x? with
  | none => exact .inr rfl
  | some a =>
    rw [Option.mapM_some, Option.mapM_some, map_eq_pure_bind, map_eq_pure_bind]
    exact (h a).bind fun b => .inr rfl

end CutOff

/-! ## Terms -/

namespace Term

variable {levels levels' : Nat}

/-- The term of a rule, or its fault, is the same with more levels left, unless there were too few.
-/
theorem cutOff_ofRuleWithin (limit limit' : Nat) (h : levels ≤ levels') (rule : Value) :
    CutOff (ofRuleWithin limit levels rule) (ofRuleWithin limit' levels' rule) := by
  induction levels generalizing levels' rule with
  | zero => exact .inl ⟨limit, rfl⟩
  | succ levels ih =>
    obtain ⟨levels', rfl⟩ := Nat.exists_eq_add_one.2 (Nat.zero_lt_of_lt h)
    have hinner : ∀ inner, CutOff (ofRuleWithin limit levels inner)
        (ofRuleWithin limit' levels' inner) := by
      intro inner
      exact ih (by omega) inner
    rw [ofRuleWithin, ofRuleWithin]
    refine CutOff.bind (.inr rfl) ?_
    intro form
    cases form with
    | literal => exact .inr rfl
    | reference key default? =>
      have hdefault := CutOff.option_mapM hinner default?
      cases key with
      | path text => exact hdefault.bind fun t? => .inr rfl
      | computed keyRule =>
        exact (hinner keyRule).bind fun key => hdefault.bind fun t? => .inr rfl
    | call op args => exact (CutOff.list_mapM hinner args).bind fun terms => .inr rfl

/-- A rule keeps its term when more levels are left. -/
theorem ofRuleWithin_eq_ok_of_le {limit : Nat} {rule : Value} {t : Term} (limit' : Nat)
    (h : levels ≤ levels') (ht : ofRuleWithin limit levels rule = .ok t) :
    ofRuleWithin limit' levels' rule = .ok t := by
  rcases cutOff_ofRuleWithin limit limit' h rule with hdeep | heq
  · exact absurd (ht ▸ hdeep) (not_tooDeep_ok t)
  · rw [← heq, ht]

end Term

/-! ## Evaluations -/

/-- Evaluations correspond if they are equal or the first of them has been cut off. -/
def Simulation.cutOff : Simulation Evaluation Evaluation where
  Rel x y := TooDeep x.outcome ∨ x = y
  rel_pure _ := .inr rfl
  rel_bind := by
    intro α β x y f g hx hf
    rcases hx with hdeep | rfl
    · left
      rw [Evaluation.outcome_bind]
      exact hdeep.bind _
    · -- The values of the first part are the same, so only the part that follows it can be cut off.
      by_cases hdeep : ∃ a, x.outcome = .ok a ∧ TooDeep (f a).outcome
      · obtain ⟨a, ha, hdeep⟩ := hdeep
        left
        rw [Evaluation.outcome_bind, ha]
        exact hdeep
      · right
        apply Evaluation.bind_congr_of_outcome
        intro a ha
        rcases hf a with hcut | heq
        · exact absurd ⟨a, ha, hcut⟩ hdeep
        · exact heq
  rel_lift _ := .inr rfl

variable {levels levels' : Nat}

/-- A rule evaluates to the same with more levels left, unless there were too few. -/
theorem cutOff_evaluateWithin (limit limit' : Nat) (h : levels ≤ levels') (rule data : Value) :
    Simulation.cutOff.Rel (evaluateWithin limit levels rule data)
      (evaluateWithin limit' levels' rule data) := by
  induction levels generalizing levels' rule data with
  | zero => exact .inl ⟨limit, rfl⟩
  | succ levels ih =>
    obtain ⟨levels', rfl⟩ := Nat.exists_eq_add_one.2 (Nat.zero_lt_of_lt h)
    have hinner : ∀ inner data, Simulation.cutOff.Rel (evaluateWithin limit levels inner data)
        (evaluateWithin limit' levels' inner data) := by
      intro inner data
      exact ih (by omega) inner data
    rw [evaluateWithin, evaluateWithin]
    cases Form.ofValue rule with
    | error e => exact .inr rfl
    | ok form =>
      cases form with
      | literal => exact .inr rfl
      | reference key default? =>
        have hdefault : ∀ found, Simulation.cutOff.Rel
            (orDefault (evaluateWithin limit levels · data) found default?)
            (orDefault (evaluateWithin limit' levels' · data) found default?) := by
          intro found
          apply Simulation.cutOff.rel_orDefault
          cases default? with
          | none => exact .none
          | some default => exact .some (hinner default data)
        cases key with
        | path text => exact hdefault (data.resolve? text)
        | computed keyRule =>
          exact Simulation.cutOff.rel_bind (hinner keyRule data) fun key => hdefault _
      | call op args =>
        have hargs : Simulation.cutOff.Corresponding (evaluateWithin limit levels)
            (evaluateWithin limit' levels') args args :=
          List.forall₂_same.2 fun arg _ data => hinner arg data
        exact hargs.rel_run op data

/-! ## Engines -/

namespace Engine

/-- Under a higher limit a rule has the same value or the same fault and logs the same, unless it
was nested too deeply under the lower one; and so it is when the rule is compiled. -/
theorem apply_eq_of_maxDepth_le {engine : Engine} {limit : Nat} (h : engine.maxDepth ≤ limit)
    (rule : Value) :
    (∀ data, ¬ TooDeep (engine.apply rule data) →
      { engine with maxDepth := limit }.apply rule data = engine.apply rule data ∧
        ({ engine with maxDepth := limit }.run rule data).log = (engine.run rule data).log) ∧
      (¬ TooDeep (engine.compile rule) →
        { engine with maxDepth := limit }.compile rule = engine.compile rule) := by
  constructor
  · intro data hdeep
    have hrun : { engine with maxDepth := limit }.run rule data = engine.run rule data := by
      rcases cutOff_evaluateWithin engine.maxDepth limit h rule data with hcut | heq
      · exact absurd hcut hdeep
      · exact congrArg ExceptT.run heq.symm
    rw [apply, apply, hrun]
    exact ⟨rfl, rfl⟩
  · intro hdeep
    rw [compile_eq] at hdeep ⊢
    rw [compile_eq]
    rcases Term.cutOff_ofRuleWithin engine.maxDepth limit h rule with ⟨l, hcut⟩ | heq
    · refine absurd ⟨l, ?_⟩ hdeep
      rw [Term.ofRule, hcut]
      rfl
    · rw [Term.ofRule, Term.ofRule, heq]

/-- A disjunction with an unknown operator and, behind it, a rule on three levels. -/
def guardedDepth : Value :=
  .singleton "or" (.array [.singleton "var" (.string "a"), .singleton "bogus" (.array []),
    .singleton "!" (.array [.singleton "!" (.array [.bool true])])])

/-- Two levels are enough to find the variable and, when all is looked at, the unknown operator. -/
theorem apply_eq_of_maxDepth_le_guardedDepth :
    ({ maxDepth := 2 } : Engine).maxDepth ≤ 256 ∧
      ({ maxDepth := 256 } : Engine).apply guardedDepth (.singleton "a" (.int 1)) = .ok (.int 1) ∧
      ({ maxDepth := 256 } : Engine).compile guardedDepth = .error (.unknownOperator "bogus") := by
  have hle : ({ maxDepth := 2 } : Engine).maxDepth ≤ 256 := by decide
  have happly : ({ maxDepth := 2 } : Engine).apply guardedDepth (.singleton "a" (.int 1)) =
      .ok (.int 1) := rfl
  have hcompile : ({ maxDepth := 2 } : Engine).compile guardedDepth =
      .error (.unknownOperator "bogus") := rfl
  obtain ⟨hevaluation, hcompilation⟩ := apply_eq_of_maxDepth_le hle guardedDepth
  refine ⟨hle, ?_, ?_⟩
  · rw [← happly]
    exact (hevaluation _ (happly ▸ not_tooDeep_ok _)).1
  · rw [← hcompile]
    apply hcompilation
    rw [hcompile]
    rintro ⟨limit, h⟩
    exact absurd h (by simp)

end Engine

end JsonRules
