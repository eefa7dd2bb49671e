import JsonRules.Proofs.Rule.Fault
import Mathlib.Logic.Relation

/-!
# Spellings of rules

The same rule can be spelled in several ways: a single argument of an operator need not stand in a
list, nor need the path of a variable, and a path can be given by different values that name it
(`Value.Spelling`). Wherever in a rule another spelling is chosen (`Value.Respelling`), and however
often, neither evaluation nor compilation can tell the difference, whether the rule is accepted or
rejected and however it is: `Engine.compile_eq_of_respelled`.

Both walk through a rule by its form. So it is enough that another spelling leaves the form the same
and that the rules inside can be exchanged for one another (`Interchangeable.of_alike`).
-/

namespace JsonRules

/-! ## Respelling -/

namespace Value

/-- One way to spell a rule and another way, the rules inside it untouched. -/
inductive Spelling : Value → Value → Prop where
  /-- A single argument is put in a list. -/
  | argument (op : Operator) {arg : Value} (h : arg.asArray? = none) :
      Spelling (singleton op.name arg) (singleton op.name (array [arg]))
  /-- A path is put in a list. -/
  | path {path : Value} (h : path.asArray? = none) :
      Spelling (singleton variableName path) (singleton variableName (array [path]))
  /-- An index is written out in decimal. -/
  | index (n : Int64) :
      Spelling (singleton variableName (int n)) (singleton variableName (string (intText n)))
  | listedIndex (n : Int64) :
      Spelling (singleton variableName (array [int n]))
        (singleton variableName (array [string (intText n)]))
  | defaultedIndex (n : Int64) (default : Value) :
      Spelling (singleton variableName (array [int n, default]))
        (singleton variableName (array [string (intText n), default]))
  /-- The path that stays where it is need not be written at all. -/
  | null : Spelling (singleton variableName null) (singleton variableName (string ""))
  | empty : Spelling (singleton variableName (array [])) (singleton variableName (string ""))

/-- A rule is spelled in another way at one of the positions of rules in it. -/
inductive Respelling : Value → Value → Prop where
  /-- At the rule itself. -/
  | root {rule rule' : Value} (h : Spelling rule rule') : Respelling rule rule'
  /-- In one of several arguments. -/
  | argument (op : Operator) (before after : List Value) {arg arg' : Value}
      (h : Respelling arg arg') :
      Respelling (singleton op.name (array (before ++ arg :: after)))
        (singleton op.name (array (before ++ arg' :: after)))
  | soleArgument (op : Operator) {arg arg' : Value} (h : Respelling arg arg') :
      Respelling (singleton op.name arg) (singleton op.name arg')
  /-- In the rule that computes the key of a variable. -/
  | key {key key' : Value} (h : Respelling key key') :
      Respelling (singleton variableName key) (singleton variableName key')
  | listedKey {key key' : Value} (h : Respelling key key') :
      Respelling (singleton variableName (array [key])) (singleton variableName (array [key']))
  | defaultedKey {key key' : Value} (default : Value) (h : Respelling key key') :
      Respelling (singleton variableName (array [key, default]))
        (singleton variableName (array [key', default]))
  /-- In the default of a variable. -/
  | default (path : Value) {default default' : Value} (h : Respelling default default') :
      Respelling (singleton variableName (array [path, default]))
        (singleton variableName (array [path, default']))

/-- Two rules that respelling leads from one to the other, in any number of places and in either
direction. -/
def Respelled : Value → Value → Prop := Relation.EqvGen Respelling

end Value

/-! ## Rules that nothing tells apart -/

/-- Neither evaluation nor compilation can tell the two rules apart. -/
structure Interchangeable (rule rule' : Value) : Prop where
  term : ∀ limit levels, Term.ofRuleWithin limit levels rule = Term.ofRuleWithin limit levels rule'
  evaluation : ∀ limit levels data,
    evaluateWithin limit levels rule data = evaluateWithin limit levels rule' data

/-- Evaluations correspond if they are equal. -/
def Simulation.equality : Simulation Evaluation Evaluation where
  Rel x y := x = y
  rel_pure _ := rfl
  rel_bind := by
    intro α β x y f g hx hf
    rw [hx, funext hf]
  rel_lift _ := rfl

namespace Interchangeable

variable {rule rule' rule'' : Value}

theorem refl (rule : Value) : Interchangeable rule rule := ⟨fun _ _ => rfl, fun _ _ _ => rfl⟩

theorem symm (h : Interchangeable rule rule') : Interchangeable rule' rule :=
  ⟨fun limit levels => (h.term limit levels).symm,
    fun limit levels data => (h.evaluation limit levels data).symm⟩

theorem trans (h : Interchangeable rule rule') (h' : Interchangeable rule' rule'') :
    Interchangeable rule rule'' :=
  ⟨fun limit levels => (h.term limit levels).trans (h'.term limit levels),
    fun limit levels data =>
      (h.evaluation limit levels data).trans (h'.evaluation limit levels data)⟩

/-! ## Interchangeable rules inside of rules -/

/-- What has been found of two forms is the same up to interchangeable rules inside of them. A form
that stands for the value itself is not among them: the values are all there is to it. -/
inductive Alike : Except RuleError Form → Except RuleError Form → Prop where
  | error (e : RuleError) : Alike (.error e) (.error e)
  | reference (text : String) {default? default'? : Option Value}
      (hdefault : Option.Rel Interchangeable default? default'?) :
      Alike (.ok (.reference (.path text) default?)) (.ok (.reference (.path text) default'?))
  | lookup {key key' : Value} {default? default'? : Option Value}
      (hkey : Interchangeable key key') (hdefault : Option.Rel Interchangeable default? default'?) :
      Alike (.ok (.reference (.computed key) default?))
        (.ok (.reference (.computed key') default'?))
  | call (op : Operator) {args args' : List Value}
      (hargs : List.Forall₂ Interchangeable args args') :
      Alike (.ok (.call op args)) (.ok (.call op args'))

theorem option_rel_refl (default? : Option Value) :
    Option.Rel Interchangeable default? default? := by
  cases default? with
  | none => exact .none
  | some default => exact .some (refl default)

theorem Alike.refl {x : Except RuleError Form} (h : x ≠ .ok .literal) : Alike x x := by
  rcases x with e | form
  · exact .error e
  · cases form with
    | literal => exact absurd rfl h
    | reference key default? =>
      cases key with
      | path text => exact .reference text (option_rel_refl default?)
      | computed key => exact .lookup (Interchangeable.refl key) (option_rel_refl default?)
    | call op args => exact .call op (List.forall₂_same.2 fun arg _ => Interchangeable.refl arg)

section Inner

variable {default? default'? : Option Value} {args args' : List Value} (limit levels : Nat)

theorem option_mapM_eq (h : Option.Rel Interchangeable default? default'?) :
    default?.mapM (Term.ofRuleWithin limit levels) =
      default'?.mapM (Term.ofRuleWithin limit levels) := by
  cases h with
  | none => rfl
  | some h => rw [Option.mapM_some, Option.mapM_some, h.term]

theorem list_mapM_eq (h : List.Forall₂ Interchangeable args args') :
    args.mapM (Term.ofRuleWithin limit levels) = args'.mapM (Term.ofRuleWithin limit levels) := by
  induction h with
  | nil => rfl
  | cons h _ ih => rw [List.mapM_cons, List.mapM_cons, h.term, ih]

theorem orDefault_eq (h : Option.Rel Interchangeable default? default'?) (found : Option Value)
    (data : Value) :
    orDefault (evaluateWithin limit levels · data) found default? =
      orDefault (evaluateWithin limit levels · data) found default'? := by
  refine Simulation.equality.rel_orDefault found ?_
  cases h with
  | none => exact .none
  | some h => exact .some (h.evaluation limit levels data)

theorem run_eq (h : List.Forall₂ Interchangeable args args') (op : Operator) (data : Value) :
    op.run (evaluateWithin limit levels) args data =
      op.run (evaluateWithin limit levels) args' data := by
  have hargs : Simulation.equality.Corresponding (evaluateWithin limit levels)
      (evaluateWithin limit levels) args args' :=
    h.imp fun _ _ h data => h.evaluation limit levels data
  exact hargs.rel_run op data

end Inner

/-- Rules with the same form are interchangeable if the rules inside of them are. -/
theorem of_alike (h : Alike (Form.ofValue rule) (Form.ofValue rule')) :
    Interchangeable rule rule' := by
  generalize hform : Form.ofValue rule = form at h
  generalize hform' : Form.ofValue rule' = form' at h
  constructor
  · intro limit levels
    cases levels with
    | zero => rfl
    | succ levels =>
      rw [Term.ofRuleWithin, Term.ofRuleWithin, hform, hform']
      cases h with
      | error e => rfl
      | reference text hdefault =>
        exact congrArg (· >>= fun default? => pure (Term.reference (.ofString text) default?))
          (option_mapM_eq limit levels hdefault)
      | lookup hkey hdefault =>
        change (Term.ofRuleWithin limit levels _ >>= fun key => _) =
          Term.ofRuleWithin limit levels _ >>= fun key => _
        rw [hkey.term, option_mapM_eq limit levels hdefault]
      | call op hargs =>
        exact congrArg (· >>= fun args => pure (Term.call op args))
          (list_mapM_eq limit levels hargs)
  · intro limit levels data
    cases levels with
    | zero => rfl
    | succ levels =>
      rw [evaluateWithin, evaluateWithin, hform, hform']
      cases h with
      | error e => rfl
      | reference text hdefault => exact orDefault_eq limit levels hdefault _ data
      | lookup hkey hdefault =>
        change (evaluateWithin limit levels _ data >>= fun key => _) =
          evaluateWithin limit levels _ data >>= fun key => _
        rw [hkey.evaluation]
        exact bind_congr fun key => orDefault_eq limit levels hdefault _ data
      | call op hargs => exact run_eq limit levels hargs op data

end Interchangeable

/-! ## Forms of respelled rules -/

namespace Form

theorem ofVariable_ne_literal (body : Value) : ofVariable body ≠ .ok .literal := by
  intro h
  obtain ⟨_, _, _, _, _, hform⟩ := exists_of_ofVariable h
  exact Form.noConfusion hform

/-- What stands in the place of a path has the same form in a list as on its own. -/
theorem ofVariable_list {path : Value} (h : path.asArray? = none) :
    ofVariable path = ofVariable (.array [path]) := by
  rw [ofVariable_eq (.bare h), ofVariable_eq (.path path)]

/-- Values that name the same path are the same key. -/
theorem keyOf_int (n : Int64) : keyOf (.int n) = keyOf (.string (intText n)) := rfl

theorem keyOf_null : keyOf .null = keyOf (.string "") := rfl

theorem arguments_of_asArray?_eq_none {arg : Value} (h : arg.asArray? = none) :
    arguments arg = [arg] := by
  cases arg with
  | array items => exact absurd h (Option.some_ne_none items)
  | _ => rfl

/-- Another spelling has the same form, which is that of a variable or of a call, or the same
fault. -/
theorem ofValue_spelling {rule rule' : Value} (h : rule.Spelling rule') :
    ofValue rule = ofValue rule' ∧ ofValue rule ≠ .ok .literal := by
  have hvariable : ∀ {body body' : Value}, ofVariable body = ofVariable body' →
      ofValue (.singleton variableName body) = ofValue (.singleton variableName body') ∧
        ofValue (.singleton variableName body) ≠ .ok .literal := by
    intro body body' hbody
    rw [Value.singleton, Value.singleton, ofValue_variable, ofValue_variable]
    exact ⟨hbody, ofVariable_ne_literal body⟩
  cases h with
  | argument op h =>
    rw [Value.singleton, Value.singleton, ofValue_operator, ofValue_operator,
      arguments_of_asArray?_eq_none h]
    exact ⟨rfl, by simp⟩
  | path h => exact hvariable (ofVariable_list h)
  | index n =>
    refine hvariable ?_
    rw [ofVariable_eq (.bare rfl), ofVariable_eq (.bare rfl), keyOf_int]
  | listedIndex n =>
    refine hvariable ?_
    rw [ofVariable_eq (.path _), ofVariable_eq (.path _), keyOf_int]
  | defaultedIndex n default =>
    refine hvariable ?_
    rw [ofVariable_eq (.both _ _), ofVariable_eq (.both _ _), keyOf_int]
  | null =>
    refine hvariable ?_
    rw [ofVariable_eq (.bare rfl), ofVariable_eq (.bare rfl), keyOf_null]
  | empty =>
    refine hvariable ?_
    rw [ofVariable_eq .empty, ofVariable_eq (.bare rfl), keyOf_null]

end Form

namespace Interchangeable

variable {rule rule' : Value}

/-- Only objects are spelled in several ways. -/
theorem exists_object_of_respelling (h : rule.Respelling rule') :
    (∃ members, rule = .object members) ∧ ∃ members, rule' = .object members := by
  cases h with
  | root h => cases h <;> exact ⟨⟨_, rfl⟩, ⟨_, rfl⟩⟩
  | _ => exact ⟨⟨_, rfl⟩, ⟨_, rfl⟩⟩

/-- A variable can have its key exchanged and its default exchanged. -/
theorem reference {path path' body body' : Value} {default? default'? : Option Value}
    (hbody : Value.IsVariableBody path default? body)
    (hbody' : Value.IsVariableBody path' default'? body')
    (hpath : path = path' ∨ (∃ members, path = .object members) ∧
      (∃ members, path' = .object members) ∧ Interchangeable path path')
    (hdefault : Option.Rel Interchangeable default? default'?) :
    Interchangeable (.singleton variableName body) (.singleton variableName body') := by
  refine of_alike ?_
  rw [Value.singleton, Value.singleton, Form.ofValue_variable, Form.ofValue_variable,
    Form.ofVariable_eq hbody, Form.ofVariable_eq hbody']
  rcases hpath with rfl | ⟨⟨members, rfl⟩, ⟨members', rfl⟩, hkey⟩
  · cases Form.keyOf path with
    | error e => exact .error e
    | ok key =>
      cases key with
      | path text => exact .reference text hdefault
      | computed key => exact .lookup (refl key) hdefault
  · exact .lookup hkey hdefault

theorem call (op : Operator) {body body' : Value}
    (h : List.Forall₂ Interchangeable (Form.arguments body) (Form.arguments body')) :
    Interchangeable (.singleton op.name body) (.singleton op.name body') := by
  refine of_alike ?_
  rw [Value.singleton, Value.singleton, Form.ofValue_operator, Form.ofValue_operator]
  exact .call op h

theorem forall₂_append_cons (before after : List Value) {arg arg' : Value}
    (h : Interchangeable arg arg') :
    List.Forall₂ Interchangeable (before ++ arg :: after) (before ++ arg' :: after) := by
  have hsame : ∀ args, List.Forall₂ Interchangeable args args := fun args =>
    List.forall₂_same.2 fun arg _ => refl arg
  exact List.rel_append (hsame before) (.cons h (hsame after))

/-- A rule can be exchanged for one that is spelled in another way somewhere inside. -/
theorem of_respelling (h : rule.Respelling rule') : Interchangeable rule rule' := by
  induction h with
  | root h =>
    obtain ⟨hform, hliteral⟩ := Form.ofValue_spelling h
    exact of_alike (hform ▸ .refl hliteral)
  | argument op before after h ih => exact call op (forall₂_append_cons before after ih)
  | soleArgument op h ih =>
    obtain ⟨⟨members, rfl⟩, ⟨members', rfl⟩⟩ := exists_object_of_respelling h
    exact call op (.cons ih .nil)
  | key h ih =>
    -- a key that were no object would be taken for a path, or for a list of path and default
    obtain ⟨⟨members, rfl⟩, ⟨members', rfl⟩⟩ := exists_object_of_respelling h
    exact reference (.bare rfl) (.bare rfl) (.inr ⟨⟨_, rfl⟩, ⟨_, rfl⟩, ih⟩) .none
  | listedKey h ih =>
    obtain ⟨hobject, hobject'⟩ := exists_object_of_respelling h
    exact reference (.path _) (.path _) (.inr ⟨hobject, hobject', ih⟩) .none
  | defaultedKey default h ih =>
    obtain ⟨hobject, hobject'⟩ := exists_object_of_respelling h
    exact reference (.both _ _) (.both _ _) (.inr ⟨hobject, hobject', ih⟩) (.some (refl default))
  | default path h ih => exact reference (.both _ _) (.both _ _) (.inl rfl) (.some ih)

theorem of_respelled (h : rule.Respelled rule') : Interchangeable rule rule' := by
  induction h with
  | rel _ _ h => exact of_respelling h
  | refl rule => exact refl rule
  | symm _ _ _ ih => exact ih.symm
  | trans _ _ _ _ _ ih ih' => exact ih.trans ih'

end Interchangeable

namespace Engine

/-- However a rule is spelled, it is compiled to the same arena or rejected with the same error, and
it has the same value for all data and logs the same. -/
theorem compile_eq_of_respelled {rule rule' : Value} (h : rule.Respelled rule') (engine : Engine) :
    engine.compile rule = engine.compile rule' ∧
      ∀ data, engine.apply rule data = engine.apply rule' data ∧
        (engine.run rule data).log = (engine.run rule' data).log := by
  have hinterchangeable := Interchangeable.of_respelled h
  constructor
  · rw [compile_eq, compile_eq, Term.ofRule, Term.ofRule, hinterchangeable.term]
  · intro data
    have hrun : engine.run rule data = engine.run rule' data := by
      rw [run, run, evaluate, evaluate, hinterchangeable.evaluation]
    rw [apply, apply, hrun]
    exact ⟨rfl, rfl⟩

/-- A choice by the data as a whole, between a variable with a default and one that is negated. -/
def terseChoice : Value :=
  .singleton "if" (.array [
    .singleton "var" .null,
    .singleton "var" (.array [.int 1,
      .singleton "!" (.singleton "var" (.singleton "cat" (.string "a")))])])

/-- The same choice with lists of arguments and with paths written out. -/
def fullChoice : Value :=
  .singleton "if" (.array [
    .singleton "var" (.string ""),
    .singleton "var" (.array [.string "1",
      .singleton "!" (.array [.singleton "var" (.singleton "cat" (.array [.string "a"]))])])])

/-- The default is respelled from the inside out, then the variables around it. -/
theorem respelled_terseChoice : terseChoice.Respelled fullChoice := by
  have hcat : Value.Respelling (.singleton "cat" (.string "a"))
      (.singleton "cat" (.array [.string "a"])) :=
    .root (.argument (.eager (.calculation .cat)) rfl)
  refine .trans _ _ _ (.rel _ _ (.argument (.control .ifElse) [] _ (.root .null))) ?_
  refine .trans _ _ _ (.rel _ _ (.argument (.control .ifElse) [_] [] (.default _
    (.soleArgument (.eager (.calculation .not)) (.key hcat))))) ?_
  refine .trans _ _ _ (.rel _ _ (.argument (.control .ifElse) [_] [] (.default _
    (.root (.argument (.eager (.calculation .not)) rfl))))) ?_
  exact .rel _ _ (.argument (.control .ifElse) [_] [] (.root (.defaultedIndex 1 _)))

theorem compile_eq_of_respelled_terseChoice :
    terseChoice.Respelled fullChoice ∧
      ({} : Engine).compile terseChoice = ({} : Engine).compile fullChoice :=
  ⟨respelled_terseChoice, (compile_eq_of_respelled respelled_terseChoice {}).1⟩

end Engine

end JsonRules
