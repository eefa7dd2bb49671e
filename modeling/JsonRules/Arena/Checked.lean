import JsonRules.Arena.Basic

/-!
# Checked reading of arenas

Reading an arena with nothing taken for granted: a node that is not there, a span that is not among
the edges and a level beyond the last are faults, where plain reading would make do with an absent
value or with fewer arguments. On the arenas that are relied on elsewhere there are no faults.
-/

namespace JsonRules

namespace Arena

/-- Why an arena cannot be read on. -/
inductive Fault where
  /-- There is no node at a position. -/
  | noNode (position : Nat)
  /-- The span of a call is not among the edges. -/
  | noEdges (span : Span)
  /-- There is no level left. -/
  | noLevel
deriving DecidableEq

/-- The node at a position, if it is there with all the edges that it refers to. -/
def nodeAt (arena : Arena) (position : Nat) : Except Fault Node :=
  match arena.nodes[position]? with
  | none => .error (.noNode position)
  | some (.call op args) =>
    if args.start + args.length ≤ arena.edges.size then .ok (.call op args)
    else .error (.noEdges args)
  | some node => .ok node

/-- Evaluates the node at a position against data. -/
def evaluateChecked (arena : Arena) :
    (levels position : Nat) → (data : Value) → ExceptT Fault Logged Value
  | 0, _, _ => throw .noLevel
  | levels + 1, position, data => do
    let node ← arena.nodeAt position
    arena.evaluateNode (arena.evaluateChecked levels) node data

/-- The rule that the node at a position stands for. -/
def ruleChecked (arena : Arena) : (levels position : Nat) → Except Fault Value
  | 0, _ => .error .noLevel
  | levels + 1, position => do
    let rule := arena.ruleChecked levels
    match ← arena.nodeAt position with
    | .literal value => return value
    | .reference path default? =>
      return variableRule (.string path.toString) (← default?.mapM rule)
    | .lookup key default? =>
      let key ← rule key
      return variableRule key (← default?.mapM rule)
    | .call op args => return .singleton op.name (.array (← (arena.edgesIn args).mapM rule))

end Arena

end JsonRules
