import JsonRules.Proofs.Rule.Spelling

/-!
# Closed rules

A rule learns about the data from variables and from questions for missing keys only. Iterating
operators evaluate their second argument, the *body*, against items of a list instead of the data
around them. So if every variable and every such question in a rule stands in a body, the rule is
*closed* (`Value.Closed`): it has the same value or the same fault for all data, and logs the same
(`Engine.apply_eq_of_closed`).

Nothing is asked of a body itself. The data reach it only as the items that it is evaluated against,
and those come from arguments outside of it.
-/

namespace JsonRules

/-- Whether the second argument of an operator is a body. -/
def Operator.hasBody : Operator → Bool
  | eager _ => false
  | control c =>
    match c with
    | .and | .or | .ifElse | .ternary => false
    | .map | .filter | .reduce | .all | .any | .notAny => true

/-- The arguments of an operator without the body, if there is one. -/
def Operator.outerArguments {α : Type} (op : Operator) (args : List α) : List α :=
  if op.hasBody then args.eraseIdx 1 else args

namespace Value

/-- Whether a rule looks at the data itself: it is a variable or asks for missing keys. -/
def readsData : Value → Bool
  | object [(name, _)] =>
    [variableName, Inquiry.missing.name, Inquiry.missingSome.name].contains name
  | _ => false

/-- The rules directly inside a rule, without the body if there is one. -/
def outerRules (rule : Value) : List Value :=
  match rule with
  | object [(name, _)] =>
    match Operator.lookup? name with
    | some op => op.outerArguments rule.innerRules
    | none => rule.innerRules
  | _ => []

/-- A rule is closed if nothing in it looks at the data, except in bodies. -/
inductive Closed : Value → Prop where
  | intro {rule : Value} (hrule : ¬ rule.readsData)
      (houter : ∀ inner ∈ rule.outerRules, Closed inner) : Closed rule

theorem readsData_variable (body : Value) : (object [(variableName, body)]).readsData := by
  simp [readsData]

theorem readsData_inquiry (q : Inquiry) (body : Value) :
    (object [((Operator.eager (.inquiry q)).name, body)]).readsData := by
  cases q <;> simp [readsData, Operator.name, Eager.name]

theorem outerRules_call (op : Operator) (body : Value) :
    (object [(op.name, body)]).outerRules = op.outerArguments (Form.arguments body) := by
  rw [outerRules, Operator.lookup?_name, ← Form.rules_eq_innerRules (Form.ofValue_operator op body)]
  rfl

end Value

/-! ## Operators -/

section Operators

variable {eval : Value → Value → Evaluation Value} {args : List Value} {data data' : Value}

/-- An argument that is not the body is the same for other data. -/
theorem Control.evalArgument_congr {position : Nat} (hposition : position ≠ 1)
    (h : ∀ arg ∈ args.eraseIdx 1, eval arg data = eval arg data') :
    evalArgument eval args position data = evalArgument eval args position data' := by
  unfold evalArgument
  cases harg : args[position]? with
  | none => rfl
  | some arg => exact h arg (List.mem_eraseIdx_iff_getElem?.2 ⟨position, hposition, harg⟩)

/-- An operator looks at the data only to evaluate its arguments outside the body, unless it asks
for missing keys. -/
theorem Operator.run_congr (op : Operator) (hop : ∀ q, op ≠ .eager (.inquiry q))
    (h : ∀ arg ∈ op.outerArguments args, eval arg data = eval arg data') :
    op.run eval args data = op.run eval args data' := by
  have hinOrder : op.hasBody = false →
      List.Forall₂ (fun a b => eval a data = eval b data') args args := by
    intro hbody
    rw [outerArguments, hbody] at h
    exact List.forall₂_same.2 h
  have hargument : op.hasBody = true → ∀ position ≠ 1,
      Control.evalArgument eval args position data =
        Control.evalArgument eval args position data' := by
    intro hbody position hposition
    rw [outerArguments, hbody] at h
    exact Control.evalArgument_congr hposition h
  cases op with
  | eager op =>
    have hvalues := Simulation.equality.rel_mapM (hinOrder rfl)
    cases op with
    | inquiry q => exact absurd rfl (hop q)
    | calculation c => exact Simulation.equality.rel_bind hvalues fun values => rfl
    | log => exact Simulation.equality.rel_bind hvalues fun values => rfl
  | control c =>
    cases c with
    | and => exact Simulation.equality.rel_untilTruth false (hinOrder rfl)
    | or => exact Simulation.equality.rel_untilTruth true (hinOrder rfl)
    | ifElse => exact Simulation.equality.rel_choose (hinOrder rfl)
    | ternary => exact Simulation.equality.rel_choose (hinOrder rfl)
    | reduce =>
      have hlist := hargument rfl 0 (by decide)
      have hinitial := hargument rfl 2 (by decide)
      simp only [run, Control.run, hlist, hinitial]
    | map | filter | all | any | notAny =>
      have hlist := hargument rfl 0 (by decide)
      simp only [run, Control.run, hlist]

end Operators

/-! ## Rules -/

/-- A closed rule evaluates to the same whatever the data. -/
theorem evaluateWithin_eq_of_closed {rule : Value} (h : rule.Closed) (limit levels : Nat)
    (data data' : Value) :
    evaluateWithin limit levels rule data = evaluateWithin limit levels rule data' := by
  induction levels generalizing rule with
  | zero => rfl
  | succ levels ih =>
    obtain ⟨hrule, houter⟩ := h
    rw [evaluateWithin, evaluateWithin]
    cases hform : Form.ofValue rule with
    | error e => rfl
    | ok form =>
      rcases Form.ofValue_cases hform with ⟨rfl, -⟩ | ⟨op, body, rfl, rfl⟩ |
        ⟨path, default?, key, body, rfl, -, -, -⟩
      · rfl
      · have hop : ∀ q, op ≠ .eager (.inquiry q) := by
          rintro q rfl
          exact hrule (Value.readsData_inquiry q body)
        apply op.run_congr hop
        intro arg harg
        rw [← Value.outerRules_call] at harg
        exact ih (houter arg harg)
      · exact absurd (Value.readsData_variable body) hrule

namespace Engine

/-- A closed rule has the same value, or the same fault, for all data, and logs the same. -/
theorem apply_eq_of_closed {rule : Value} (h : rule.Closed) (engine : Engine)
    (data data' : Value) :
    engine.apply rule data = engine.apply rule data' ∧
      (engine.run rule data).log = (engine.run rule data').log := by
  have hrun : engine.run rule data = engine.run rule data' := by
    rw [run, run, evaluate, evaluate, evaluateWithin_eq_of_closed h]
  rw [apply, apply, hrun]
  exact ⟨rfl, rfl⟩

/-- The sum of the doubles of some numbers, with variables in bodies only. -/
def sumOfDoubles : Value :=
  .singleton "reduce" (.array [
    .singleton "map" (.array [.array [.int 1, .int 2],
      .singleton "*" (.array [.singleton "log" (.singleton "var" (.string "")), .int 2])]),
    .singleton "+" (.array [.singleton "var" (.string "current"),
      .singleton "var" (.string "accumulator")]),
    .int 0])

theorem closed_sumOfDoubles : sumOfDoubles.Closed := by
  have hplain : ∀ v : Value, v.asObject? = none → v.Closed := by
    intro v hv
    cases v with
    | object members => exact absurd hv (Option.some_ne_none members)
    | _ => exact .intro Bool.false_ne_true fun _ h => absurd h List.not_mem_nil
  refine .intro (by decide) (List.forall_mem_cons.2 ⟨?_, ?_⟩)
  · exact .intro (by decide) (List.forall_mem_singleton.2 (hplain _ rfl))
  · exact List.forall_mem_singleton.2 (hplain _ rfl)

theorem apply_eq_of_closed_sumOfDoubles :
    sumOfDoubles.Closed ∧
      ({} : Engine).apply sumOfDoubles (.object [("accumulator", .int 5), ("current", .int 7)]) =
        .ok (.int 6) :=
  ⟨closed_sumOfDoubles, (apply_eq_of_closed closed_sumOfDoubles {} _ .null).1.trans rfl⟩

end Engine

end JsonRules
