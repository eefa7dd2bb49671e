import JsonRules.Proofs.Compilation
import JsonRules.Proofs.Rule.Grammar

/-!
# Faults that are found

Compilation meets the faults of a rule in the order of the walk through it and stops at the first
one, so it accepts exactly the rules (`Engine.compile_outcome`). Evaluation walks through a rule in
the same order if nothing in the rule is lazy: then every rule inside is evaluated once and no value
decides what comes next, and both fail alike (`Engine.apply_eq_error_iff`).
-/

namespace JsonRules

/-! ## Faults of computations -/

section Except

variable {ε α β : Type}

/-- The fault that there is in the place of a result. -/
def fault? : Except ε α → Option ε
  | .error e => some e
  | .ok _ => none

theorem fault?_eq_some_iff {x : Except ε α} {e : ε} : fault? x = some e ↔ x = .error e := by
  cases x <;> simp [fault?]

theorem fault?_eq_none_iff {x : Except ε α} : fault? x = none ↔ ∃ a, x = .ok a := by
  cases x <;> simp [fault?]

theorem fault?_map (f : α → β) (x : Except ε α) : fault? (x.map f) = fault? x := by
  cases x <;> rfl

theorem fault?_bind {x : Except ε α} {g : α → Except ε β} {e? : Option ε}
    (h : ∀ a, x = .ok a → fault? (g a) = e?) : fault? (x >>= g) = (fault? x).or e? := by
  cases x with
  | error e => rfl
  | ok a => exact h a rfl

/-- What follows a computation and has no fault does not matter. -/
theorem fault?_bind_of_none {x : Except ε α} {g : α → Except ε β} (h : ∀ a, fault? (g a) = none) :
    fault? (x >>= g) = fault? x := by
  rw [fault?_bind fun a _ => h a, Option.or_none]

theorem fault?_listMapM (f : α → Except ε β) (xs : List α) :
    fault? (xs.mapM f) = xs.findSome? fun a => fault? (f a) := by
  induction xs with
  | nil => rfl
  | cons a rest ih =>
    rw [List.mapM_cons, findSome?_cons_eq_or, ← ih]
    exact fault?_bind fun _ _ => fault?_bind_of_none fun _ => rfl

theorem fault?_optionMapM (f : α → Except ε β) (x? : Option α) :
    fault? (x?.mapM f) = x?.toList.findSome? fun a => fault? (f a) := by
  cases x? with
  | none => rfl
  | some a =>
    rw [Option.toList_some, findSome?_cons_eq_or, Option.mapM_some]
    cases f a <;> rfl

end Except

/-! ## Faults of forms -/

namespace Form

variable {rule : Value} {form : Form}

theorem ofValue_unknown {name : String} (body : Value) (hname : name ≠ variableName)
    (hop : Operator.lookup? name = none) :
    ofValue (.object [(name, body)]) = .error (.unknownOperator name) := by
  rw [ofValue, ofMember, if_neg hname, hop]

theorem ofValue_plain (h : rule.asObject? = none) : ofValue rule = .ok .literal := by
  cases rule with
  | object members => exact absurd h (Option.some_ne_none members)
  | _ => rfl

theorem fault?_keyOf (path : Value) : fault? (keyOf path) = path.keyFault? := by
  cases path <;> rfl

theorem ofVariable_eq {path body : Value} {default? : Option Value}
    (h : Value.IsVariableBody path default? body) :
    ofVariable body = (keyOf path).map fun key => .reference key default? := by
  rw [ofVariable, h.variableParts_eq]
  change (keyOf path >>= fun key => pure (reference key default?)) = _
  cases keyOf path <;> rfl

theorem fault?_ofVariable (body : Value) : fault? (ofVariable body) = body.variableFault? := by
  rcases body.isVariableBody_or with ⟨path, default?, hbody⟩ | ⟨_, _, _, _, rfl⟩
  · rw [ofVariable_eq hbody, fault?_map, fault?_keyOf, hbody.variableFault?_eq]
  · rfl

/-- The form of a rule is found unless the shape of the rule has a fault. -/
theorem fault?_ofValue (rule : Value) : fault? (ofValue rule) = rule.shapeFault? := by
  cases rule.shape with
  | reference body => rw [ofValue_variable, Value.shapeFault?_variable, fault?_ofVariable]
  | call op body =>
    rw [ofValue_operator, Value.shapeFault?_call]
    rfl
  | unknown body hname hop =>
    rw [ofValue_unknown body hname hop, Value.shapeFault?_unknown body hname hop]
    rfl
  | several first second rest => rfl
  | empty => rfl
  | plain h =>
    rw [ofValue_plain h, Value.shapeFault?_plain h]
    rfl

/-- A body that is one of a variable gives its form the key and the default. -/
theorem exists_of_ofVariable {body : Value} (h : ofVariable body = .ok form) :
    ∃ path default? key, Value.IsVariableBody path default? body ∧ keyOf path = .ok key ∧
      form = .reference key default? := by
  rcases body.isVariableBody_or with ⟨path, default?, hbody⟩ | ⟨_, _, _, _, rfl⟩
  · rw [ofVariable_eq hbody] at h
    cases hkey : keyOf path with
    | error e => exact absurd h (by simp [hkey, Except.map])
    | ok key =>
      rw [hkey] at h
      exact ⟨path, default?, key, hbody, hkey, (Except.ok.inj h).symm⟩
  · exact absurd h (by simp [ofVariable, variableParts, bind, Except.bind])

theorem rules_reference {path : Value} {key : Key} (h : keyOf path = .ok key)
    (default? : Option Value) :
    (reference key default?).rules = path.keyRules ++ default?.toList := by
  rcases keyOf_cases h with ⟨members, rfl, rfl⟩ | ⟨text, htext, rfl⟩
  · rfl
  · cases path with
    | object members => exact absurd htext.symm (Option.some_ne_none text)
    | _ => rfl

/-- What a rule looks like that has a form. -/
theorem ofValue_cases (h : ofValue rule = .ok form) :
    (form = .literal ∧ rule.innerRules = []) ∨
      (∃ op body, rule = .object [(op.name, body)] ∧ form = .call op (arguments body)) ∨
      ∃ path default? key body, rule = .object [(variableName, body)] ∧
        Value.IsVariableBody path default? body ∧ keyOf path = .ok key ∧
        form = .reference key default? := by
  cases rule.shape with
  | reference body =>
    rw [ofValue_variable] at h
    obtain ⟨path, default?, key, hbody, hkey, e⟩ := exists_of_ofVariable h
    exact .inr (.inr ⟨path, default?, key, body, rfl, hbody, hkey, e⟩)
  | call op body =>
    rw [ofValue_operator] at h
    exact .inr (.inl ⟨op, body, rfl, (Except.ok.inj h).symm⟩)
  | unknown body hname hop =>
    rw [ofValue_unknown body hname hop] at h
    exact absurd h (by simp)
  | several first second rest => exact absurd h (by simp [ofValue])
  | empty => exact .inl ⟨(Except.ok.inj h).symm, rfl⟩
  | plain hplain =>
    rw [ofValue_plain hplain] at h
    exact .inl ⟨(Except.ok.inj h).symm, Value.innerRules_plain hplain⟩

/-- The rules that the form of a rule has are those directly inside the rule. -/
theorem rules_eq_innerRules (h : ofValue rule = .ok form) : form.rules = rule.innerRules := by
  rcases ofValue_cases h with ⟨rfl, hinner⟩ | ⟨op, body, rfl, rfl⟩ |
    ⟨path, default?, key, body, rfl, hbody, hkey, rfl⟩
  · exact hinner.symm
  · rw [Value.innerRules_call]
    cases body <;> rfl
  · rw [Value.innerRules_variable, hbody.variableRules_eq, rules_reference hkey]

/-- A rule that is not lazy is a literal, a variable without a default or a call that evaluates all
its arguments. -/
theorem cases_of_not_isLazy (h : ofValue rule = .ok form) (hlazy : ¬ rule.isLazy) :
    form = .literal ∨ (∃ key, form = .reference key none) ∨
      ∃ op args, form = .call (.eager op) args := by
  rcases ofValue_cases h with ⟨rfl, -⟩ | ⟨op, body, rfl, rfl⟩ |
    ⟨path, default?, key, body, rfl, hbody, -, rfl⟩
  · exact .inl rfl
  · cases op with
    | eager op => exact .inr (.inr ⟨op, _, rfl⟩)
    | control c =>
      rw [Value.isLazy, Operator.lookup?_name] at hlazy
      exact absurd (Bool.or_true _) hlazy
  · cases hbody with
    | both path default => exact absurd rfl hlazy
    | _ => exact .inr (.inl ⟨key, rfl⟩)

end Form

/-! ## Faults of terms -/

/-- The fault of a rule that has no term is the first one on the walk through it. -/
theorem Term.fault?_ofRuleWithin (limit levels : Nat) (rule : Value) :
    fault? (ofRuleWithin limit levels rule) = rule.faultWithin? limit levels := by
  induction levels generalizing rule with
  | zero => rfl
  | succ levels ih =>
    have hinner : (fun inner => fault? (ofRuleWithin limit levels inner)) =
        Value.faultWithin? limit levels := funext ih
    rw [ofRuleWithin, Value.faultWithin?, ← Form.fault?_ofValue]
    -- With a form found, what is left are the faults of the rules inside, in the order of the form.
    refine fault?_bind fun form hform => ?_
    rw [← Form.rules_eq_innerRules hform]
    cases form with
    | literal => rfl
    | reference key default? =>
      have hdefault : fault? (default?.mapM (ofRuleWithin limit levels)) =
          default?.toList.findSome? (Value.faultWithin? limit levels) := by
        rw [fault?_optionMapM, hinner]
      cases key with
      | path text => exact (fault?_bind_of_none fun _ => rfl).trans hdefault
      | computed keyRule =>
        rw [Form.rules, findSome?_cons_eq_or, ← ih keyRule]
        exact fault?_bind fun key _ => (fault?_bind_of_none fun _ => rfl).trans hdefault
    | call op args =>
      rw [Form.rules, ← hinner, ← fault?_listMapM]
      exact fault?_bind_of_none fun _ => rfl

/-! ## Faults of evaluations -/

namespace Evaluation

variable {α β : Type}

/-- What an evaluation comes to, leaving aside what it logs. -/
def outcome (x : Evaluation α) : Except RuleError α := x.run.value

theorem outcome_bind (x : Evaluation α) (f : α → Evaluation β) :
    (x >>= f).outcome = x.outcome >>= fun a => (f a).outcome := by
  unfold outcome
  rw [ExceptT.run_bind, Logged.value_bind]
  cases x.run.value <;> rfl

theorem outcome_mapM (f : α → Evaluation β) (xs : List α) :
    outcome (xs.mapM f) = xs.mapM fun a => (f a).outcome := by
  induction xs with
  | nil => rfl
  | cons a rest ih =>
    rw [List.mapM_cons, List.mapM_cons, outcome_bind]
    refine bind_congr fun b => ?_
    rw [outcome_bind, ih]
    rfl

/-- A variable without a default does not fail after its key is known. -/
theorem fault?_orDefault_none (eval : α → Evaluation Value) (found : Option Value) :
    fault? (outcome (orDefault eval found none)) = none := by
  unfold orDefault
  cases present? found <;> rfl

/-- The fault that the evaluation of a rule meets is the first one on the walk through it, whatever
the data, if every rule inside is evaluated. -/
theorem fault?_evaluateWithin {limit levels depth : Nat} {rule : Value}
    (h : ∀ p ∈ rule.positions depth, ¬ p.rule.isLazy) (data : Value) :
    fault? (evaluateWithin limit levels rule data).outcome = rule.faultWithin? limit levels := by
  induction levels generalizing depth rule with
  | zero => rfl
  | succ levels ih =>
    obtain ⟨hrule, hpositions⟩ := Value.forall_mem_positions_iff.1 h
    have hinner : ∀ inner ∈ rule.innerRules,
        fault? (evaluateWithin limit levels inner data).outcome =
          inner.faultWithin? limit levels := by
      intro inner hmem
      exact ih (hpositions inner hmem)
    rw [Value.faultWithin?, evaluateWithin, ← Form.fault?_ofValue]
    cases hform : Form.ofValue rule with
    | error e => rfl
    | ok form =>
      rw [← Form.rules_eq_innerRules hform] at hinner ⊢
      -- No form that is left looks at a value before all rules inside have been evaluated.
      rcases Form.cases_of_not_isLazy hform hrule with rfl | ⟨key, rfl⟩ | ⟨op, args, rfl⟩
      · rfl
      · cases key with
        | path text => exact fault?_orDefault_none _ _
        | computed keyRule =>
          have hkey := hinner keyRule List.mem_cons_self
          rw [Form.rules, Option.toList_none, findSome?_cons_eq_or, ← hkey, outcome_bind]
          exact fault?_bind fun key _ => fault?_orDefault_none _ _
      · have hargs : args.findSome? (Value.faultWithin? limit levels) =
            args.findSome? fun arg => fault? (evaluateWithin limit levels arg data).outcome :=
          findSome?_congr fun arg harg => (hinner arg harg).symm
        change fault? (outcome (args.mapM (evaluateWithin limit levels · data) >>= fun values =>
          liftM (op.combine data values))) = args.findSome? (Value.faultWithin? limit levels)
        rw [hargs, outcome_bind, outcome_mapM, ← fault?_listMapM]
        exact fault?_bind_of_none fun _ => rfl

end Evaluation

namespace Engine

variable {rule : Value}

theorem fault?_compile (engine : Engine) (rule : Value) :
    fault? (engine.compile rule) = rule.firstFault? engine.maxDepth := by
  rw [compile_eq, fault?_map, Term.ofRule, Term.fault?_ofRuleWithin, Value.firstFault?_eq]

theorem fault?_apply (h : ∀ p ∈ rule.positions 1, ¬ p.rule.isLazy) (engine : Engine)
    (data : Value) : fault? (engine.apply rule data) = rule.firstFault? engine.maxDepth := by
  rw [Value.firstFault?_eq]
  exact Evaluation.fault?_evaluateWithin h data

/-- Compilation accepts exactly the rules, and what it reports of anything else is the first fault
on the walk through it. Whether constants are folded makes no difference to either. -/
theorem compile_outcome (engine : Engine) (rule : Value) :
    ((∃ c, engine.compile rule = .ok c) ↔ rule.IsRule engine.maxDepth 1) ∧
      (∀ e, engine.compile rule = .error e ↔ rule.firstFault? engine.maxDepth = some e) ∧
      ∀ fold, fault? ({ engine with foldConstants := fold }.compile rule) =
        fault? (engine.compile rule) := by
  refine ⟨?_, fun e => ?_, fun fold => ?_⟩
  · rw [← fault?_eq_none_iff, fault?_compile, Value.isRule_iff_firstFault?]
  · rw [← fault?_eq_some_iff, fault?_compile]
  · rw [fault?_compile, fault?_compile]

/-- A rule that evaluates every rule inside it fails with the error that compilation reports, and
only then, whatever the data.

Nodes and edges are numbered without a bound here. Where their numbers have 32 bits, compilation
also fails if it runs out of them, which evaluation cannot. There the statement is about rules with
a `Value.positionCount` of at most `2 ^ 32`, which never run out (`Compilation.size_le_of_run`). -/
theorem apply_eq_error_iff (h : ∀ p ∈ rule.positions 1, ¬ p.rule.isLazy) (engine : Engine)
    (data : Value) (e : RuleError) :
    engine.apply rule data = .error e ↔ engine.compile rule = .error e := by
  rw [← fault?_eq_some_iff, fault?_apply h, ← fault?_compile, fault?_eq_some_iff]

/-- A sum with a fault in the key of a variable and another one after it. -/
def faultySum : Value :=
  .singleton "+" (.array [.singleton "var" (.array [.singleton "bogus" (.array [.int 1])]),
    .object [("a", .int 1), ("b", .int 2)]])

theorem not_isLazy_faultySum : ∀ p ∈ faultySum.positions 1, ¬ p.rule.isLazy := by
  have hbogus : ∀ p ∈ (Value.singleton "bogus" (.array [.int 1])).positions 3,
      ¬ p.rule.isLazy :=
    Value.forall_mem_positions_iff.2 ⟨by decide, fun _ h => absurd h List.not_mem_nil⟩
  refine Value.forall_mem_positions_iff.2 ⟨by decide, List.forall_mem_cons.2 ⟨?_, ?_⟩⟩
  · exact Value.forall_mem_positions_iff.2 ⟨by decide, List.forall_mem_singleton.2 hbogus⟩
  · refine List.forall_mem_singleton.2 (Value.forall_mem_positions_iff.2 ⟨by decide, ?_⟩)
    exact fun _ h => absurd h List.not_mem_nil

theorem apply_eq_error_iff_faultySum :
    (∀ p ∈ faultySum.positions 1, ¬ p.rule.isLazy) ∧
      ({} : Engine).apply faultySum .null = .error (.unknownOperator "bogus") :=
  ⟨not_isLazy_faultySum, (apply_eq_error_iff not_isLazy_faultySum {} .null _).2 rfl⟩

end Engine

end JsonRules
