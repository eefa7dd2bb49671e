import JsonRules.Operator.Basic
import JsonRules.Rule.Error

/-!
# The grammar of rules

Which values are rules and what is wrong with those that are not, said of the values themselves and
without the steps that find it out. A rule is a value that stands for itself, the call of an
operator on rules, or a variable (`Value.IsRule`). The depth of a rule is one more than the depth of
the rule that it is inside of, and there is a limit to it.

A rule is walked through from the outside in: first the rule itself, then the rules inside it from
left to right, the computed key of a variable before its default (`Value.positions`). How many
positions there are and how deep they are is the extent of a rule (`Value.positionCount`,
`Value.positionDepth`). The first fault of a rule is that of the first position in this order that
has one (`Value.firstFault?`).
-/

namespace JsonRules

namespace Value

/-! ## Rules -/

/-- A value in the place of a variable's path: it names a path or is the rule that computes a key.
-/
inductive IsKey : Value → Prop where
  | null : IsKey null
  | int (n : Int64) : IsKey (int n)
  | string (s : String) : IsKey (string s)
  | object (members : List (String × Value)) : IsKey (object members)

/-- The argument of a variable is a path or a list of at most a path and a default. -/
inductive IsVariableBody : (path : Value) → (default? : Option Value) → (body : Value) → Prop where
  | empty : IsVariableBody null none (array [])
  | path (path : Value) : IsVariableBody path none (array [path])
  | both (path default : Value) : IsVariableBody path (some default) (array [path, default])
  | bare {path : Value} (h : path.asArray? = none) : IsVariableBody path none path

/-- The value is a rule in a place of some depth. -/
inductive IsRule (limit : Nat) : (depth : Nat) → Value → Prop where
  | value {depth : Nat} {v : Value} (hdepth : depth ≤ limit) (h : v.asObject? = none) :
      IsRule limit depth v
  | empty {depth : Nat} (hdepth : depth ≤ limit) : IsRule limit depth (object [])
  | call {depth : Nat} {args : List Value} (hdepth : depth ≤ limit) (op : Operator)
      (hargs : ∀ arg ∈ args, IsRule limit (depth + 1) arg) :
      IsRule limit depth (object [(op.name, array args)])
  | callSingle {depth : Nat} {arg : Value} (hdepth : depth ≤ limit) (op : Operator)
      (h : arg.asArray? = none) (harg : IsRule limit (depth + 1) arg) :
      IsRule limit depth (object [(op.name, arg)])
  | reference {depth : Nat} {path body : Value} {default? : Option Value} (hdepth : depth ≤ limit)
      (hbody : IsVariableBody path default? body) (hpath : IsKey path)
      (hkey : path.asObject?.isSome → IsRule limit (depth + 1) path)
      (hdefault : ∀ default ∈ default?, IsRule limit (depth + 1) default) :
      IsRule limit depth (object [(variableName, body)])

/-! ## Rules inside rules -/

/-- The rule that computes the key, if the value in the place of a path is one. -/
def keyRules (path : Value) : List Value := if path.asObject?.isSome then [path] else []

/-- The rules inside the argument of a variable, the computed key before the default. -/
def variableRules : Value → List Value
  | array [path] => keyRules path
  | array [path, default] => keyRules path ++ [default]
  | array _ => []
  | path => keyRules path

/-- The arguments inside the body of a call, from left to right. -/
def argumentRules : Value → List Value
  | array items => items
  | single => [single]

/-- The rules directly inside a rule, in order. -/
def innerRules : Value → List Value
  | object [(name, body)] =>
    if name = variableName then variableRules body
    else if (Operator.lookup? name).isSome then argumentRules body
    else []
  | _ => []

theorem eq_of_mem_keyRules {path inner : Value} (h : inner ∈ keyRules path) : inner = path := by
  unfold keyRules at h
  split at h
  · exact List.mem_singleton.1 h
  · exact absurd h List.not_mem_nil

theorem sizeOf_le_of_mem_variableRules {body inner : Value} (h : inner ∈ variableRules body) :
    sizeOf inner ≤ sizeOf body := by
  unfold variableRules at h
  split at h
  · rw [eq_of_mem_keyRules h]
    simp
    omega
  · rcases List.mem_append.1 h with h | h
    · rw [eq_of_mem_keyRules h]
      simp
      omega
    · rw [List.mem_singleton.1 h]
      simp
      omega
  · exact absurd h List.not_mem_nil
  · exact Nat.le_of_eq (congrArg sizeOf (eq_of_mem_keyRules h))

theorem sizeOf_le_of_mem_argumentRules {body inner : Value} (h : inner ∈ argumentRules body) :
    sizeOf inner ≤ sizeOf body := by
  unfold argumentRules at h
  split at h
  · have := List.sizeOf_lt_of_mem h
    simp
    omega
  · exact Nat.le_of_eq (congrArg sizeOf (List.mem_singleton.1 h))

theorem sizeOf_lt_of_mem_innerRules {rule inner : Value} (h : inner ∈ rule.innerRules) :
    sizeOf inner < sizeOf rule := by
  unfold innerRules at h
  split at h
  · rename_i name body
    have hle : sizeOf inner ≤ sizeOf body := by
      split at h
      · exact sizeOf_le_of_mem_variableRules h
      · split at h
        · exact sizeOf_le_of_mem_argumentRules h
        · exact absurd h List.not_mem_nil
    have hlt : sizeOf body < sizeOf (object [(name, body)]) := by
      simp
      omega
    exact Nat.lt_of_le_of_lt hle hlt
  · exact absurd h List.not_mem_nil

/-- Whether there is a default in the argument of a variable. -/
def hasDefault : Value → Bool
  | array [_, _] => true
  | _ => false

/-- Whether a rule need not evaluate every rule inside it exactly once: it is a variable with a
default or the call of an operator that decides what is evaluated. -/
def isLazy : Value → Bool
  | object [(name, body)] =>
    (name == variableName && hasDefault body)
      || (Operator.lookup? name).any fun op => op.strategy = .lazy
  | _ => false

/-- A place for a rule inside a rule. -/
structure Position where
  /-- The number of rules around the place, the rule that stands there included. -/
  depth : Nat
  /-- The value that stands there. -/
  rule : Value

/-- The places for rules in a rule of some depth, in the order of the walk. -/
def positions (depth : Nat) (rule : Value) : List Position :=
  ⟨depth, rule⟩ :: rule.innerRules.attach.flatMap fun inner => positions (depth + 1) inner.1
termination_by sizeOf rule
decreasing_by exact sizeOf_lt_of_mem_innerRules inner.2

/-- The number of places for rules in a rule. -/
def positionCount (rule : Value) : Nat := (rule.positions 1).length

/-- The depth of the deepest places for rules in a rule. -/
def positionDepth (rule : Value) : Nat := ((rule.positions 1).map Position.depth).foldr max 0

/-! ## Faults -/

/-- What is wrong with a value in the place of a path. -/
def keyFault? : Value → Option RuleError
  | null | int _ | string _ | object _ => none
  | path => some (.notAPath path)

/-- What is wrong with the argument of a variable. -/
def variableFault? : Value → Option RuleError
  | array [] => none
  | array [path] => keyFault? path
  | array [path, _] => keyFault? path
  | array items => some (.surplusVariableArguments items.length)
  | path => keyFault? path

/-- What is wrong with the shape of a rule, the rules inside it aside. -/
def shapeFault? : Value → Option RuleError
  | object [(name, body)] =>
    if name = variableName then variableFault? body
    else if (Operator.lookup? name).isSome then none
    else some (.unknownOperator name)
  | object (first :: second :: rest) =>
    some (.severalKeys ((first :: second :: rest).map Prod.fst))
  | _ => none

/-- What is wrong at a position: the depth is looked at before the shape. -/
def Position.fault? (limit : Nat) (p : Position) : Option RuleError :=
  if limit < p.depth then some (.tooDeep limit) else p.rule.shapeFault?

/-- What is wrong with a rule, the first fault on the walk if there are several. -/
def firstFault? (limit : Nat) (rule : Value) : Option RuleError :=
  (rule.positions 1).findSome? (Position.fault? limit)

end Value

end JsonRules
