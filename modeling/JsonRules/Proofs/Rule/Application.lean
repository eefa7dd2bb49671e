import JsonRules.Proofs.Compilation
import JsonRules.Proofs.Rule.Limit

/-!
# Values of rules

A rule yields a value for data if it evaluates to it, compiled first or not (`Engine.Yields`). What
its term is worth is what it yields (`Engine.yields_of_ofRuleWithin`). So an eager operator yields
what it makes of its arguments if they stand for themselves (`Engine.yields_of_literals`), and a
variable whose key names a path yields what the path leads to (`Engine.yields_variable`).
-/

namespace JsonRules

/-- The rule that applies an eager operator to arguments. -/
def Eager.over (op : Eager) (args : List Value) : Value := .singleton op.name (.array args)

theorem value_orDefault_none {ρ : Type} (eval : ρ → Logged Value) (found : Option Value) :
    (orDefault eval found none).value = found.getD .null := by
  cases found with
  | none => rfl
  | some v => cases v <;> rfl

namespace Term

variable {limit levels : Nat}

/-- The value of a term for data, what it logs aside. -/
def value (t : Term) (data : Value) : Value := (t.meaning data).value

theorem ofRuleWithin_call_iff (op : Operator) {args : List Value} {t : Term} :
    ofRuleWithin limit (levels + 1) (.singleton op.name (.array args)) = .ok t ↔
      ∃ terms, List.Forall₂ (fun arg s => ofRuleWithin limit levels arg = .ok s) args terms ∧
        call op terms = t := by
  rw [ofRuleWithin, Form.ofValue_call]
  change (args.mapM (ofRuleWithin limit levels) >>= fun terms => .ok (call op terms)) = .ok t ↔ _
  rw [except_bind_eq_ok_iff]
  simp only [list_mapM_eq_ok_iff, Except.ok.injEq]

theorem ofRuleWithin_over (op : Eager) {args : List Value}
    (h : ∀ arg ∈ args, Form.ofValue arg = .ok .literal) :
    ofRuleWithin limit (levels + 2) (op.over args) =
      .ok (call (.eager op) (args.map literal)) := by
  refine (ofRuleWithin_call_iff (.eager op)).2 ⟨args.map literal, ?_, rfl⟩
  rw [List.forall₂_map_right_iff, List.forall₂_same]
  exact fun arg harg => ofRuleWithin_succ_iff.2 (.literal (h arg harg))

theorem value_call_literals (op : Eager) (args : List Value) (data : Value) :
    (call (.eager op) (args.map literal)).value data = (op.combine data args).value := by
  rw [value, meaning, allMeaning_eq_map, Operator.run, mapM_meaning_literal, pure_bind]
  rfl

theorem ofRuleWithin_variable {key : Value} {text : String} (h : key.pathText? = some text) :
    ofRuleWithin limit (levels + 1) (.singleton variableName key) =
      .ok (reference (.ofString text) none) := by
  have hkey : Form.keyOf key = .ok (.path text) := by
    cases key <;> simp_all [Form.keyOf, Value.pathText?]
  have hbody : Value.IsVariableBody key none key := by
    refine .bare ?_
    cases key with
    | array items => exact absurd h (Option.some_ne_none text).symm
    | _ => rfl
  refine ofRuleWithin_succ_iff.2 (.reference ?_ .none)
  rw [Value.singleton, Form.ofValue_variable, Form.ofVariable_eq hbody, hkey]
  rfl

theorem value_reference (text : String) (data : Value) :
    (reference (.ofString text) none).value data = (data.resolve? text).getD .null := by
  rw [value, meaning, Path.resolve?_ofString, optionMeaning, value_orDefault_none]

end Term

namespace Engine

variable {engine : Engine} {rule data : Value}

/-- A rule has a value for data, and it does not matter whether it is compiled first. -/
def Yields (engine : Engine) (rule data v : Value) : Prop :=
  engine.apply rule data = .ok v ∧ ∃ c, engine.compile rule = .ok c ∧ c.apply data = v

theorem Yields.unique {v w : Value} (h : engine.Yields rule data v)
    (h' : engine.Yields rule data w) : v = w :=
  Except.ok.inj (h.1.symm.trans h'.1)

/-- A rule that has a term yields what the term is worth. -/
theorem yields_of_ofRuleWithin {levels : Nat} {t : Term} (h : levels ≤ engine.maxDepth)
    (ht : Term.ofRuleWithin engine.maxDepth levels rule = .ok t) (data : Value) :
    engine.Yields rule data (t.value data) := by
  have hrule : Term.ofRule engine.maxDepth rule = .ok t :=
    Term.ofRuleWithin_eq_ok_of_le engine.maxDepth h ht
  have hcompile : engine.compile rule = .ok (.ofTerm (t.prepared engine.foldConstants)) :=
    compile_eq_ok_iff.2 ⟨t, hrule, rfl⟩
  have happly : (CompiledRule.ofTerm (t.prepared engine.foldConstants)).apply data =
      t.value data := by
    rw [CompiledRule.apply, CompiledRule.run_ofTerm, Term.meaning_prepared, Term.value]
  refine ⟨?_, _, hcompile, happly⟩
  rw [(apply_eq_of_compile hcompile).1 data, happly]

/-- An eager operator yields what it makes of arguments that stand for themselves. -/
theorem yields_of_literals (hdepth : 2 ≤ engine.maxDepth) (op : Eager) {args : List Value}
    (h : ∀ arg ∈ args, Form.ofValue arg = .ok .literal) (data : Value) :
    engine.Yields (op.over args) data (op.combine data args).value := by
  rw [← Term.value_call_literals]
  exact yields_of_ofRuleWithin hdepth (Term.ofRuleWithin_over op h) data

/-- A variable yields what the path leads to that its key names, if it leads anywhere. -/
theorem yields_variable (hdepth : 1 ≤ engine.maxDepth) {key : Value} {text : String}
    (h : key.pathText? = some text) (data : Value) :
    engine.Yields (.singleton variableName key) data ((data.resolveKey? key).getD .null) := by
  rw [Value.resolveKey?, h, Option.bind_some, ← Term.value_reference]
  exact yields_of_ofRuleWithin hdepth (Term.ofRuleWithin_variable h) data

end Engine

end JsonRules
