import JsonRules.Proofs.Term.Literals
import JsonRules.Rule.Grammar

/-!
# Rules and their faults

A value is a rule exactly if no position in it has a fault (`Value.isRule_iff_firstFault?`). Both
are compared with the recursion that those who walk through a rule make, with the levels that are
left of the limit instead of the depth (`Value.faultWithin?`): a fault of the shape comes first, then
the faults of the rules inside, in order.
-/

namespace JsonRules

/-! ## The first of a list -/

theorem findSome?_cons_eq_or {α β : Type} (f : α → Option β) (a : α) (rest : List α) :
    (a :: rest).findSome? f = (f a).or (rest.findSome? f) := by
  rw [List.findSome?_cons]
  cases f a <;> rfl

theorem findSome?_flatMap_eq {α β γ : Type} {f : α → List β} {p : β → Option γ} {q : α → Option γ}
    {xs : List α} (h : ∀ a ∈ xs, (f a).findSome? p = q a) :
    (xs.flatMap f).findSome? p = xs.findSome? q := by
  induction xs with
  | nil => rfl
  | cons a rest ih =>
    rw [List.flatMap_cons, List.findSome?_append, findSome?_cons_eq_or, h a List.mem_cons_self,
      ih fun b hb => h b (List.mem_cons_of_mem _ hb)]

theorem findSome?_congr {α β : Type} {f g : α → Option β} {xs : List α}
    (h : ∀ a ∈ xs, f a = g a) : xs.findSome? f = xs.findSome? g := by
  induction xs with
  | nil => rfl
  | cons a rest ih =>
    rw [findSome?_cons_eq_or, findSome?_cons_eq_or, h a List.mem_cons_self,
      ih fun b hb => h b (List.mem_cons_of_mem _ hb)]

namespace Value

/-! ## Variables -/

theorem keyFault?_eq_none_iff {path : Value} : path.keyFault? = none ↔ path.IsKey := by
  constructor
  · intro h
    cases path with
    | null => exact .null
    | int n => exact .int n
    | string s => exact .string s
    | object members => exact .object members
    | bool b => exact absurd h (Option.some_ne_none _)
    | float x => exact absurd h (Option.some_ne_none _)
    | array items => exact absurd h (Option.some_ne_none _)
  · intro h
    cases h <;> rfl

/-- A body of a variable is one, or it is a list that is too long. -/
theorem isVariableBody_or (body : Value) :
    (∃ path default?, IsVariableBody path default? body) ∨
      ∃ first second third rest, body = array (first :: second :: third :: rest) := by
  cases body with
  | array items =>
    match items with
    | [] => exact .inl ⟨null, none, .empty⟩
    | [path] => exact .inl ⟨path, none, .path path⟩
    | [path, default] => exact .inl ⟨path, some default, .both path default⟩
    | first :: second :: third :: rest => exact .inr ⟨first, second, third, rest, rfl⟩
  | _ => exact .inl ⟨_, none, .bare rfl⟩

section IsVariableBody

variable {path body : Value} {default? : Option Value} (h : IsVariableBody path default? body)

include h

theorem IsVariableBody.variableFault?_eq : body.variableFault? = path.keyFault? := by
  cases h with
  | bare h =>
    cases path with
    | array items => exact absurd h (Option.some_ne_none items)
    | _ => rfl
  | _ => rfl

theorem IsVariableBody.variableRules_eq :
    body.variableRules = path.keyRules ++ default?.toList := by
  cases h with
  | bare h =>
    rw [Option.toList_none, List.append_nil]
    cases path with
    | array items => exact absurd h (Option.some_ne_none items)
    | _ => rfl
  | path => exact (List.append_nil _).symm
  | _ => rfl

theorem IsVariableBody.variableParts_eq : Form.variableParts body = .ok (path, default?) := by
  cases h with
  | bare h =>
    cases path with
    | array items => exact absurd h (Option.some_ne_none items)
    | _ => rfl
  | _ => rfl

end IsVariableBody

theorem forall_mem_keyRules {P : Value → Prop} {path : Value} :
    (∀ inner ∈ path.keyRules, P inner) ↔ (path.asObject?.isSome → P path) := by
  unfold keyRules
  by_cases h : path.asObject?.isSome
  · rw [if_pos h, List.forall_mem_singleton, forall_prop_of_true h]
  · rw [if_neg h]
    exact iff_of_true (fun _ hinner => absurd hinner List.not_mem_nil) fun hsome => absurd hsome h

/-! ## Rules -/

theorem eq_array_of_asArray? {v : Value} {items : List Value} (h : v.asArray? = some items) :
    v = array items := by
  cases v with
  | array items' => rw [Option.some.inj h]
  | _ => exact absurd h.symm (Option.some_ne_none items)

theorem argumentRules_of_asArray?_eq_none {body : Value} (h : body.asArray? = none) :
    body.argumentRules = [body] := by
  cases body with
  | array items => exact absurd h (Option.some_ne_none items)
  | _ => rfl

/-- What a value may look like in the place of a rule. -/
inductive Shape : Value → Prop where
  | reference (body : Value) : Shape (object [(variableName, body)])
  | call (op : Operator) (body : Value) : Shape (object [(op.name, body)])
  | unknown {name : String} (body : Value) (hname : name ≠ variableName)
      (hop : Operator.lookup? name = none) : Shape (object [(name, body)])
  | several (first second : String × Value) (rest : List (String × Value)) :
      Shape (object (first :: second :: rest))
  | empty : Shape (object [])
  | plain {v : Value} (h : v.asObject? = none) : Shape v

theorem shape (rule : Value) : rule.Shape := by
  cases rule with
  | object members =>
    match members with
    | [] => exact .empty
    | [(name, body)] =>
      by_cases hname : name = variableName
      · exact hname ▸ .reference body
      · cases hop : Operator.lookup? name with
        | none => exact .unknown body hname hop
        | some op => exact Operator.name_of_lookup? hop ▸ .call op body
    | first :: second :: rest => exact .several first second rest
  | _ => exact .plain rfl

theorem shapeFault?_variable (body : Value) :
    (object [(variableName, body)]).shapeFault? = body.variableFault? := by
  rw [shapeFault?, if_pos rfl]

theorem innerRules_variable (body : Value) :
    (object [(variableName, body)]).innerRules = body.variableRules := by
  rw [innerRules, if_pos rfl]

theorem shapeFault?_call (op : Operator) (body : Value) :
    (object [(op.name, body)]).shapeFault? = none := by
  rw [shapeFault?, if_neg (Form.name_ne_variableName op), Operator.lookup?_name]
  rfl

theorem innerRules_call (op : Operator) (body : Value) :
    (object [(op.name, body)]).innerRules = body.argumentRules := by
  rw [innerRules, if_neg (Form.name_ne_variableName op), Operator.lookup?_name]
  rfl

theorem shapeFault?_unknown {name : String} (body : Value) (hname : name ≠ variableName)
    (hop : Operator.lookup? name = none) :
    (object [(name, body)]).shapeFault? = some (.unknownOperator name) := by
  rw [shapeFault?, if_neg hname, hop]
  rfl

theorem shapeFault?_plain {v : Value} (h : v.asObject? = none) : v.shapeFault? = none := by
  cases v with
  | object members => exact absurd h (Option.some_ne_none members)
  | _ => rfl

theorem innerRules_plain {v : Value} (h : v.asObject? = none) : v.innerRules = [] := by
  cases v with
  | object members => exact absurd h (Option.some_ne_none members)
  | _ => rfl

variable {limit levels depth : Nat} {rule : Value}

/-- A value is a rule if its depth is allowed, its shape has no fault and the rules inside it are
rules. -/
theorem isRule_iff :
    rule.IsRule limit depth ↔ depth ≤ limit ∧ rule.shapeFault? = none ∧
      ∀ inner ∈ rule.innerRules, inner.IsRule limit (depth + 1) := by
  constructor
  · intro h
    cases h with
    | value hdepth h =>
      rw [shapeFault?_plain h, innerRules_plain h]
      exact ⟨hdepth, rfl, fun _ hinner => absurd hinner List.not_mem_nil⟩
    | empty hdepth => exact ⟨hdepth, rfl, fun _ hinner => absurd hinner List.not_mem_nil⟩
    | call hdepth op hargs =>
      rw [shapeFault?_call, innerRules_call]
      exact ⟨hdepth, rfl, hargs⟩
    | callSingle hdepth op h harg =>
      rw [shapeFault?_call, innerRules_call, argumentRules_of_asArray?_eq_none h]
      exact ⟨hdepth, rfl, List.forall_mem_singleton.2 harg⟩
    | reference hdepth hbody hpath hkey hdefault =>
      rw [shapeFault?_variable, hbody.variableFault?_eq, innerRules_variable, hbody.variableRules_eq]
      refine ⟨hdepth, keyFault?_eq_none_iff.2 hpath, List.forall_mem_append.2 ⟨?_, ?_⟩⟩
      · exact forall_mem_keyRules.2 hkey
      · exact fun inner hinner => hdefault inner (Option.mem_toList.1 hinner)
  · rintro ⟨hdepth, hshape, hinner⟩
    cases rule.shape with
    | reference body =>
      rw [shapeFault?_variable] at hshape
      rw [innerRules_variable] at hinner
      rcases isVariableBody_or body with ⟨path, default?, hbody⟩ | ⟨_, _, _, _, rfl⟩
      · rw [hbody.variableFault?_eq] at hshape
        rw [hbody.variableRules_eq, List.forall_mem_append] at hinner
        refine .reference hdepth hbody (keyFault?_eq_none_iff.1 hshape) ?_ ?_
        · exact forall_mem_keyRules.1 hinner.1
        · exact fun default h => hinner.2 default (Option.mem_toList.2 h)
      · exact absurd hshape (Option.some_ne_none _)
    | call op body =>
      rw [innerRules_call] at hinner
      cases hbody : body.asArray? with
      | none =>
        rw [argumentRules_of_asArray?_eq_none hbody, List.forall_mem_singleton] at hinner
        exact .callSingle hdepth op hbody hinner
      | some items =>
        obtain rfl := eq_array_of_asArray? hbody
        exact .call hdepth op hinner
    | unknown body hname hop =>
      rw [shapeFault?_unknown body hname hop] at hshape
      exact absurd hshape (Option.some_ne_none _)
    | several first second rest => exact absurd hshape (Option.some_ne_none _)
    | empty => exact .empty hdepth
    | plain h => exact .value hdepth h

/-! ## First faults -/

theorem positions_eq (depth : Nat) (rule : Value) :
    rule.positions depth = ⟨depth, rule⟩ :: rule.innerRules.flatMap (positions (depth + 1)) := by
  rw [positions, List.flatMap_subtype fun _ _ => rfl, List.unattach_attach]

theorem forall_mem_positions_iff {P : Position → Prop} :
    (∀ p ∈ rule.positions depth, P p) ↔
      P ⟨depth, rule⟩ ∧ ∀ inner ∈ rule.innerRules, ∀ p ∈ inner.positions (depth + 1), P p := by
  rw [positions_eq, List.forall_mem_cons, List.forall_mem_flatMap]

/-- The first fault of a rule that is found with so many levels left of a limit. -/
def faultWithin? (limit : Nat) : (levels : Nat) → (rule : Value) → Option RuleError
  | 0, _ => some (.tooDeep limit)
  | levels + 1, rule =>
    rule.shapeFault?.or (rule.innerRules.findSome? (faultWithin? limit levels))

/-- The levels that are left are those from the depth of the rule to the limit. -/
theorem findSome?_positions (h : depth + levels = limit + 1) (rule : Value) :
    (rule.positions depth).findSome? (Position.fault? limit) = faultWithin? limit levels rule := by
  induction levels generalizing depth rule with
  | zero =>
    have hdeep : limit < depth := by omega
    rw [positions_eq, findSome?_cons_eq_or, Position.fault?, if_pos hdeep]
    rfl
  | succ levels ih =>
    have hdepth : ¬ limit < depth := by omega
    have hinner : ∀ inner ∈ rule.innerRules, (inner.positions (depth + 1)).findSome?
        (Position.fault? limit) = faultWithin? limit levels inner := by
      intro inner _
      exact ih (by omega) inner
    rw [positions_eq, findSome?_cons_eq_or, Position.fault?, if_neg hdepth,
      findSome?_flatMap_eq hinner]
    rfl

theorem firstFault?_eq (limit : Nat) (rule : Value) :
    rule.firstFault? limit = faultWithin? limit limit rule :=
  findSome?_positions (Nat.add_comm 1 limit) rule

theorem isRule_iff_faultWithin? (h : depth + levels = limit + 1) :
    rule.IsRule limit depth ↔ faultWithin? limit levels rule = none := by
  induction levels generalizing depth rule with
  | zero =>
    have hdeep : ¬ depth ≤ limit := by omega
    constructor
    · intro hrule
      exact absurd (isRule_iff.1 hrule).1 hdeep
    · intro hfault
      exact absurd hfault (Option.some_ne_none _)
  | succ levels ih =>
    have hdepth : depth ≤ limit := by omega
    rw [isRule_iff, faultWithin?, Option.or_eq_none_iff, List.findSome?_eq_none_iff,
      and_iff_right hdepth]
    refine and_congr_right fun _ => forall₂_congr fun inner _ => ?_
    exact ih (by omega)

/-- A value is a rule exactly if no position in it has a fault. -/
theorem isRule_iff_firstFault? : rule.IsRule limit 1 ↔ rule.firstFault? limit = none := by
  rw [firstFault?_eq]
  exact isRule_iff_faultWithin? (Nat.add_comm 1 limit)

end Value

end JsonRules
