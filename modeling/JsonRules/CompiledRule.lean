import JsonRules.Arena.Basic

/-!
# Compiled rules

A compiled rule is an arena with the position of its root and the number of levels below it. It
cannot fail: applying it to data gives a value, and it can be turned back into a rule.
-/

namespace JsonRules

/-- A rule laid out in an arena. -/
structure CompiledRule where
  /-- The nodes and edges. -/
  arena : Arena
  /-- The position of the node that stands for the whole rule. -/
  root : Nat
  /-- The number of levels of nodes below the root, the root included. -/
  depth : Nat

namespace CompiledRule

/-- The compiled rule with a root in an arena, its depth measured. -/
def ofArena (arena : Arena) (root : Nat) : CompiledRule := ⟨arena, root, arena.depthAt root⟩

/-- The number of nodes. -/
def nodeCount (rule : CompiledRule) : Nat := rule.arena.nodes.size

/-- The number of edges. -/
def edgeCount (rule : CompiledRule) : Nat := rule.arena.edges.size

/-- The value of the rule for data, and what it logs. -/
def run (rule : CompiledRule) (data : Value) : Logged Value :=
  rule.arena.evaluateWithin rule.depth rule.root data

/-- The value of the rule for data. -/
def apply (rule : CompiledRule) (data : Value) : Value := (rule.run data).value

/-- The rule as a value. -/
def toRule (rule : CompiledRule) : Value := rule.arena.ruleWithin rule.depth rule.root

/-- A summary of the rule. -/
def describe (rule : CompiledRule) : String :=
  "CompiledRule(" ++ Text.numeral rule.nodeCount ++ " nodes, depth " ++ Text.numeral rule.depth
    ++ ")"

end CompiledRule

/-- Whether two nodes are the same, floats in literals compared as numbers. -/
def Node.same : Node → Node → Bool
  | .literal v, .literal w => v.same w
  | .reference path default?, .reference path' default?' => path == path' && default? == default?'
  | .lookup key default?, .lookup key' default?' => key == key' && default? == default?'
  | .call op args, .call op' args' => op == op' && args == args'
  | _, _ => false

/-- Whether two compiled rules are the same, floats in literals compared as numbers. -/
def CompiledRule.same (a b : CompiledRule) : Bool :=
  a.nodeCount == b.nodeCount
    && (a.arena.nodes.toList.zip b.arena.nodes.toList).all (fun (m, n) => m.same n)
    && a.arena.edges == b.arena.edges && a.root == b.root && a.depth == b.depth

end JsonRules
