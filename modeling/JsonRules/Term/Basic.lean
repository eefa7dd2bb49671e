import JsonRules.Operator.Basic
import JsonRules.Path
import JsonRules.Rule.Form

/-!
# Terms

A term is a rule whose form has been settled throughout: every path is split, every operator looked
up, and no part of it can turn out to be malformed. `Term.ofRule` makes a term of a rule or reports
the first fault. It looks at every rule inside, whether an evaluation would reach it or not: first
at the rule itself, then at the rules inside it in order, the computed key of a variable before its
default.

`size` and `depth` count the subterms of a term and the levels that they are on.
-/

namespace JsonRules

/-- A rule without faults. -/
inductive Term where
  /-- A value that stands for itself. -/
  | literal (value : Value)
  /-- A variable with a known path. -/
  | reference (path : Path) (default? : Option Term)
  /-- A variable whose key is computed. -/
  | lookup (key : Term) (default? : Option Term)
  /-- The call of an operator. -/
  | call (op : Operator) (args : List Term)

namespace Term

/-- The term of a rule with so many levels left of a limit. -/
def ofRuleWithin (limit : Nat) : (levels : Nat) → (rule : Value) → Except RuleError Term
  | 0, _ => .error (.tooDeep limit)
  | levels + 1, rule => do
    let inner := ofRuleWithin limit levels
    match ← Form.ofValue rule with
    | .literal => return literal rule
    | .reference (.path text) default? =>
      return reference (.ofString text) (← default?.mapM inner)
    | .reference (.computed keyRule) default? =>
      let key ← inner keyRule
      return lookup key (← default?.mapM inner)
    | .call op args => return call op (← args.mapM inner)

/-- The term of a rule with at most `limit` rules inside one another. -/
def ofRule (limit : Nat) (rule : Value) : Except RuleError Term := ofRuleWithin limit limit rule

mutual

/-- The number of subterms, the term itself included. -/
def size : Term → Nat
  | literal _ => 1
  | reference _ default? => 1 + optionSize default?
  | lookup key default? => 1 + size key + optionSize default?
  | call _ args => 1 + allSize args

/-- The size of a default. -/
def optionSize : Option Term → Nat
  | none => 0
  | some t => size t

/-- The sizes of terms together. -/
def allSize : List Term → Nat
  | [] => 0
  | t :: rest => size t + allSize rest

end

mutual

/-- The number of levels that the subterms are on. -/
def depth : Term → Nat
  | literal _ => 1
  | reference _ default? => optionDepth default? + 1
  | lookup key default? => max (depth key) (optionDepth default?) + 1
  | call _ args => allDepth args + 1

/-- The depth of a default. -/
def optionDepth : Option Term → Nat
  | none => 0
  | some t => depth t

/-- The greatest depth among terms. -/
def allDepth : List Term → Nat
  | [] => 0
  | t :: rest => max (depth t) (allDepth rest)

end

end Term

end JsonRules
