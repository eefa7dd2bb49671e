import JsonRules.Operator.Run
import JsonRules.Path
import JsonRules.Rule.Fallback

/-!
# Arenas

An arena is a term laid out flat: an array of nodes that refer to one another by position. Literals
and variables hold what they need, and a call refers to a run of the shared list of edges, in which
its arguments are listed. In a well-formed arena a node refers only to nodes before it.

An arena is read from a node downwards, with a number of levels to go; a node that is not there or
lies beyond the last level reads as the absent value. `Arena.depths` measures how many levels each
node needs, in one pass from the first node to the last.
-/

namespace JsonRules

/-- A run of edges. -/
structure Span where
  /-- The position of the first edge. -/
  start : Nat
  /-- The number of edges. -/
  length : Nat
deriving DecidableEq

/-- A node of an arena, which refers to other nodes by their position. -/
inductive Node where
  /-- A value that stands for itself. -/
  | literal (value : Value)
  /-- A variable with a known path. -/
  | reference (path : Path) (default? : Option Nat)
  /-- A variable whose key is computed. -/
  | lookup (key : Nat) (default? : Option Nat)
  /-- The call of an operator. -/
  | call (op : Operator) (args : Span)

/-- Nodes and the edges from calls to their arguments. -/
structure Arena where
  /-- The nodes, referred to by position. -/
  nodes : Array Node
  /-- The positions of arguments, call by call. -/
  edges : Array Nat

namespace Arena

/-- The arena without any node. -/
def empty : Arena := ⟨#[], #[]⟩

/-- The edges in a span. -/
def edgesIn (arena : Arena) (span : Span) : List Nat :=
  (arena.edges.extract span.start (span.start + span.length)).toList

/-- The nodes that a node refers to: the key before the default, arguments in order. -/
def children (arena : Arena) : Node → List Nat
  | .literal _ => []
  | .reference _ default? => default?.toList
  | .lookup key default? => key :: default?.toList
  | .call _ args => arena.edgesIn args

/-- The least number of levels above all of the given ones. -/
def levelAbove (levels : List Nat) : Nat := levels.foldl max 0 + 1

/-- The number of levels that each node needs; a reference to a node that does not come before is
left out of account. -/
def depths (arena : Arena) : Array Nat :=
  arena.nodes.foldl
    (fun levels node =>
      levels.push (levelAbove ((arena.children node).filterMap fun child => levels[child]?))) #[]

/-- The number of levels that a node needs, zero if it is not there. -/
def depthAt (arena : Arena) (position : Nat) : Nat := (arena.depths[position]?).getD 0

/-- Evaluates a node against data, given a way to evaluate the nodes that it refers to. -/
def evaluateNode {m : Type → Type} [Monad m] [MonadLiftT Logged m] (arena : Arena)
    (eval : Nat → Value → m Value) (node : Node) (data : Value) : m Value :=
  match node with
  | .literal value => pure value
  | .reference path default? => orDefault (eval · data) (path.resolve? data) default?
  | .lookup key default? => do
    let key ← eval key data
    orDefault (eval · data) (data.resolveKey? key) default?
  | .call op args => op.run eval (arena.edgesIn args) data

/-- Evaluates the node at a position against data. -/
def evaluateWithin (arena : Arena) : (levels position : Nat) → (data : Value) → Logged Value
  | 0, _, _ => pure .null
  | levels + 1, position, data =>
    match arena.nodes[position]? with
    | none => pure .null
    | some node => arena.evaluateNode (arena.evaluateWithin levels) node data

/-- The rule of a variable with the rule or the text of its key. -/
def variableRule (key : Value) (default? : Option Value) : Value :=
  .singleton variableName
    (match default? with
      | some default => .array [key, default]
      | none => key)

/-- The rule that a node stands for. -/
def ruleWithin (arena : Arena) : (levels position : Nat) → Value
  | 0, _ => .null
  | levels + 1, position =>
    let rule := arena.ruleWithin levels
    match arena.nodes[position]? with
    | none => .null
    | some (.literal value) => value
    | some (.reference path default?) => variableRule (.string path.toString) (default?.map rule)
    | some (.lookup key default?) => variableRule (rule key) (default?.map rule)
    | some (.call op args) => .singleton op.name (.array ((arena.edgesIn args).map rule))

end Arena

end JsonRules
