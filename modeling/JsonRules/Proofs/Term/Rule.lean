import JsonRules.Arena.Basic
import JsonRules.Proofs.Path
import JsonRules.Proofs.Term.Basic

/-!
# Rules of terms

A term can be written as a rule again: paths are joined to texts, and the arguments of calls are
always a list. Not every term is read back from its rule: a literal must not look like an
invocation, a path must be one that a text splits to, and the rule of a computed key must be an
object. These terms are `Expressible`. Main statements:

* an expressible term is read back from its rule, if there are enough levels for it
  (`ofRuleWithin_toRule`);
* every term that was read from a rule is expressible and has no more levels than were allowed
  (`expressible_of_ofRuleWithin`, `depth_le_of_ofRuleWithin`).
-/

namespace JsonRules

/-! ## Forms of the rules that terms are written as -/

namespace Form

theorem name_ne_variableName (op : Operator) : op.name ≠ variableName := by
  intro h
  have hop := Operator.lookup?_name op
  rw [h, lookup?_variableName] at hop
  exact Option.some_ne_none op hop.symm

theorem ofValue_variable (body : Value) :
    ofValue (.object [(variableName, body)]) = ofVariable body := by
  rw [ofValue, ofMember, if_pos rfl]

theorem ofValue_operator (op : Operator) (body : Value) :
    ofValue (.object [(op.name, body)]) = .ok (.call op (arguments body)) := by
  rw [ofValue, ofMember, if_neg (name_ne_variableName op), Operator.lookup?_name]

/-- A path that a key may be written as is no list. -/
theorem variableParts_of_keyOf {path : Value} {key : Key} (h : keyOf path = .ok key) :
    variableParts path = .ok (path, none) := by
  cases path with
  | array items => exact absurd h (by simp [keyOf, Value.pathText?])
  | _ => rfl

/-- The rule of a variable has the form of a variable, with the key that its path is. -/
theorem ofValue_variableRule {path : Value} {key : Key} (h : keyOf path = .ok key)
    (default? : Option Value) :
    ofValue (Arena.variableRule path default?) = .ok (.reference key default?) := by
  have hparts : ∀ body, variableParts body = .ok (path, default?) →
      ofValue (.singleton variableName body) = .ok (.reference key default?) := by
    intro body hbody
    rw [Value.singleton, ofValue_variable, ofVariable, hbody]
    refine except_bind_eq_ok (a := (path, default?)) rfl ?_
    exact except_bind_eq_ok h rfl
  cases default? with
  | none => exact hparts path (variableParts_of_keyOf h)
  | some default => exact hparts (.array [path, default]) rfl

/-- The rule of a call has the form of that call. -/
theorem ofValue_call (op : Operator) (args : List Value) :
    ofValue (.singleton op.name (.array args)) = .ok (.call op args) :=
  ofValue_operator op (.array args)

theorem keyOf_string (text : String) : keyOf (.string text) = .ok (.path text) := rfl

/-- A key is an object, which is computed, or the text of a path. -/
theorem keyOf_cases {v : Value} {key : Key} (h : keyOf v = .ok key) :
    (∃ members, v = .object members ∧ key = .computed v) ∨
      ∃ text, v.pathText? = some text ∧ key = .path text := by
  unfold keyOf at h
  split at h
  · rename_i members
    exact .inl ⟨members, rfl, (Except.ok.inj h).symm⟩
  · split at h
    · rename_i text htext
      exact .inr ⟨text, htext, (Except.ok.inj h).symm⟩
    · exact absurd h (by simp)

/-- The key of a variable is what the value in the place of its path is. -/
theorem keyOf_of_ofValue {rule : Value} {key : Key} {default? : Option Value}
    (h : ofValue rule = .ok (.reference key default?)) : ∃ v, keyOf v = .ok key := by
  unfold ofValue at h
  split at h
  · rename_i name body
    unfold ofMember at h
    split at h
    · obtain ⟨⟨v, default'?⟩, -, h⟩ := except_bind_eq_ok_iff.1 h
      obtain ⟨key', hkey, h⟩ := except_bind_eq_ok_iff.1 h
      obtain ⟨rfl, -⟩ := Form.reference.inj (Except.ok.inj h)
      exact ⟨v, hkey⟩
    · split at h <;> simp at h
  · simp at h
  · simp at h

end Form

/-- The path that a text is gives the same path when it is written as text and split again. -/
theorem Path.ofString_toString (text : String) :
    Path.ofString (Path.ofString text).toString = Path.ofString text :=
  congrArg Path.ofString (Path.toString_ofString text)

namespace Term

mutual

/-- The rule that a term is written as. -/
def toRule : Term → Value
  | literal value => value
  | reference path default? =>
    Arena.variableRule (.string path.toString) (optionToRule default?)
  | lookup key default? => Arena.variableRule (toRule key) (optionToRule default?)
  | call op args => .singleton op.name (.array (allToRule args))

def optionToRule : Option Term → Option Value
  | none => none
  | some t => some (toRule t)

def allToRule : List Term → List Value
  | [] => []
  | t :: rest => toRule t :: allToRule rest

end

@[simp]
theorem optionToRule_eq_map (default? : Option Term) :
    optionToRule default? = default?.map toRule := by
  cases default? <;> rfl

@[simp]
theorem allToRule_eq_map (args : List Term) : allToRule args = args.map toRule := by
  induction args with
  | nil => rfl
  | cons t rest ih => rw [allToRule, ih, List.map_cons]

/-- A term that is read back from the rule that it is written as. -/
inductive Expressible : Term → Prop where
  | literal {value : Value} (h : Form.ofValue value = .ok .literal) : Expressible (literal value)
  | reference {path : Path} {default? : Option Term} (h : Path.ofString path.toString = path)
      (hdefault : ∀ t ∈ default?, Expressible t) : Expressible (reference path default?)
  | lookup {key : Term} {default? : Option Term} (h : ∃ members, key.toRule = .object members)
      (hkey : Expressible key) (hdefault : ∀ t ∈ default?, Expressible t) :
      Expressible (lookup key default?)
  | call {op : Operator} {args : List Term} (hargs : ∀ t ∈ args, Expressible t) :
      Expressible (call op args)

/-- Only a literal may have a rule that is no object. -/
theorem toRule_eq_object {t : Term} (h : t.literal? = none) :
    ∃ members, t.toRule = .object members := by
  cases t with
  | literal value => exact absurd h (Option.some_ne_none value)
  | reference path default? => exact ⟨_, rfl⟩
  | lookup key default? => exact ⟨_, rfl⟩
  | call op args => exact ⟨_, rfl⟩

/-! ## Reading a term back from its rule -/

/-- A variable whose path is read back has the form that its rule says. -/
theorem OfForm.of_path {R : Value → Term → Prop} {path : Path} {default? : Option Value}
    {t? : Option Term} (h : Path.ofString path.toString = path)
    (hdefault : Option.Rel R default? t?) :
    OfForm R (Arena.variableRule (.string path.toString) default?) (Term.reference path t?) := by
  have hform := Form.ofValue_variableRule (Form.keyOf_string path.toString) default?
  have href := OfForm.reference hform hdefault
  rwa [h] at href

theorem ofRuleWithin_toRule {limit levels : Nat} {t : Term} (h : t.Expressible)
    (hlevels : t.depth ≤ levels) : ofRuleWithin limit levels t.toRule = .ok t := by
  induction levels generalizing t with
  | zero => exact absurd hlevels (Nat.not_le.2 t.depth_pos)
  | succ levels ih =>
    have hdefault : ∀ {default? : Option Term}, (∀ t ∈ default?, t.Expressible) →
        optionDepth default? ≤ levels →
        Option.Rel (fun rule t => ofRuleWithin limit levels rule = .ok t) (default?.map toRule)
          default? := by
      intro default? hexpressible hdepth
      cases default? with
      | none => exact .none
      | some t => exact .some (ih (hexpressible t rfl) hdepth)
    refine ofRuleWithin_succ_iff.2 ?_
    cases h with
    | literal hform => exact .literal hform
    | @reference path default? hpath hexpressible =>
      rw [depth, Nat.add_le_add_iff_right] at hlevels
      rw [toRule, optionToRule_eq_map]
      exact .of_path hpath (hdefault hexpressible hlevels)
    | @lookup key default? hobject hkey hexpressible =>
      rw [depth, Nat.add_le_add_iff_right, Nat.max_le] at hlevels
      rw [toRule, optionToRule_eq_map]
      obtain ⟨members, hmembers⟩ := hobject
      refine .lookup ?_ (ih hkey hlevels.1) (hdefault hexpressible hlevels.2)
      exact Form.ofValue_variableRule (by rw [hmembers, Form.keyOf]) _
    | @call op args hargs =>
      rw [depth, Nat.add_le_add_iff_right, allDepth_le_iff] at hlevels
      rw [toRule, allToRule_eq_map]
      refine .call (Form.ofValue_call op _) (List.forall₂_map_left_iff.2 (List.forall₂_same.2 ?_))
      exact fun t ht => ih (hargs t ht) (hlevels t ht)

/-- A term that was read from a rule is within the levels that were allowed. -/
theorem depth_le_of_ofRuleWithin {limit levels : Nat} {rule : Value} {t : Term}
    (h : ofRuleWithin limit levels rule = .ok t) : t.depth ≤ levels := by
  induction levels generalizing rule t with
  | zero => exact absurd h (by simp [ofRuleWithin])
  | succ levels ih =>
    cases ofRuleWithin_succ_iff.1 h with
    | literal hform => exact Nat.le_add_left 1 levels
    | reference hform hdefault =>
      have hd := optionDepth_le_iff.2 (forall_of_option_rel hdefault fun _ _ _ => ih)
      exact Nat.add_le_add_right hd 1
    | lookup hform hkey hdefault =>
      have hd := optionDepth_le_iff.2 (forall_of_option_rel hdefault fun _ _ _ => ih)
      exact Nat.add_le_add_right (Nat.max_le.2 ⟨ih hkey, hd⟩) 1
    | call hform hargs =>
      exact Nat.add_le_add_right (allDepth_le_iff.2 (forall_of_forall₂ hargs fun _ _ _ => ih)) 1

/-- The term of an object has a rule that is an object: a literal is the object itself. -/
theorem toRule_eq_object_of_ofRuleWithin {limit levels : Nat} {members : List (String × Value)}
    {t : Term} (h : ofRuleWithin limit levels (.object members) = .ok t) :
    ∃ members, t.toRule = .object members := by
  cases levels with
  | zero => exact absurd h (by simp [ofRuleWithin])
  | succ levels =>
    cases ofRuleWithin_succ_iff.1 h with
    | literal hform => exact ⟨members, rfl⟩
    | reference hform hdefault => exact toRule_eq_object rfl
    | lookup hform hkey hdefault => exact toRule_eq_object rfl
    | call hform hargs => exact toRule_eq_object rfl

theorem expressible_of_ofRuleWithin {limit levels : Nat} {rule : Value} {t : Term}
    (h : ofRuleWithin limit levels rule = .ok t) : t.Expressible := by
  induction levels generalizing rule t with
  | zero => exact absurd h (by simp [ofRuleWithin])
  | succ levels ih =>
    cases ofRuleWithin_succ_iff.1 h with
    | literal hform => exact .literal hform
    | reference hform hdefault =>
      exact .reference (Path.ofString_toString _) (forall_of_option_rel hdefault fun _ _ _ => ih)
    | lookup hform hkey hdefault =>
      obtain ⟨v, hv⟩ := Form.keyOf_of_ofValue hform
      rcases Form.keyOf_cases hv with ⟨members, rfl, hcomputed⟩ | ⟨text, -, hpath⟩
      · obtain rfl := Key.computed.inj hcomputed
        exact .lookup (toRule_eq_object_of_ofRuleWithin hkey) (ih hkey)
          (forall_of_option_rel hdefault fun _ _ _ => ih)
      · exact absurd hpath (by simp)
    | call hform hargs => exact .call (forall_of_forall₂ hargs fun _ _ _ => ih)

end Term

end JsonRules
