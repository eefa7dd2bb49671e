import JsonRules.Blob.Payload
import JsonRules.Engine

/-!
# Validation of payloads

A payload is accepted if it is an arena that can be relied on: its metadata are true, its root and
all spans are in range, all operators exist, every node refers only to nodes before it, and it is
not deeper than rules may be by default. Otherwise the first defect is reported, the metadata being
checked first, then the root, the nodes in order and the depth at last.
-/

namespace JsonRules

/-- Why a payload is no arena. -/
inductive Defect where
  /-- The metadata have another number of nodes. -/
  | nodeCountMismatch (claimed actual : Nat)
  /-- The metadata have another number of edges. -/
  | edgeCountMismatch (claimed actual : Nat)
  /-- The root is not among the nodes. -/
  | rootOutOfBounds (root count : Nat)
  /-- A node refers to one that does not come before it. -/
  | forwardReference (parent child : Nat)
  /-- A node names no operator. -/
  | unknownOperator (name : String)
  /-- The span of a call is not among the edges. -/
  | spanOutOfBounds (span : Span) (count : Nat)
  /-- The metadata have another depth. -/
  | depthMismatch (claimed measured : Nat)
  /-- The arena is deeper than allowed. -/
  | tooDeep (depth limit : Nat)
deriving DecidableEq

namespace Defect

open Text (numeral)

/-- The wording of a defect. -/
def message : Defect → String
  | nodeCountMismatch claimed actual =>
    "metadata says " ++ numeral claimed ++ " nodes but payload has " ++ numeral actual
  | edgeCountMismatch claimed actual =>
    "metadata says " ++ numeral claimed ++ " edges but payload has " ++ numeral actual
  | rootOutOfBounds root count =>
    "root " ++ numeral root ++ " out of bounds (max " ++ numeral count ++ ")"
  | forwardReference parent child =>
    "node " ++ numeral parent ++ " refers to node " ++ numeral child
      ++ ", which does not precede it"
  | unknownOperator name => "unknown operator '" ++ name ++ "'"
  | spanOutOfBounds span count =>
    "edge span " ++ numeral span.start ++ "+" ++ numeral span.length ++ " out of bounds (max "
      ++ numeral count ++ ")"
  | depthMismatch claimed measured =>
    "metadata says depth " ++ numeral claimed ++ " but nodes measure " ++ numeral measured
  | tooDeep depth limit =>
    "rule depth " ++ numeral depth ++ " exceeds the maximum of " ++ numeral limit

end Defect

namespace Payload

/-- Fails with a defect unless a condition holds. -/
def require (condition : Prop) [Decidable condition] (defect : Defect) : Except Defect Unit :=
  if condition then .ok () else .error defect

/-- Checks that a node comes before the one that refers to it. -/
def checkChild (parent child : Nat) : Except Defect Unit :=
  require (child < parent) (.forwardReference parent child)

/-- Checks that nodes come before the one that refers to them. -/
def checkChildren (parent : Nat) : List Nat → Except Defect Unit
  | [] => .ok ()
  | child :: rest => do
    checkChild parent child
    checkChildren parent rest

/-- The node that a stored node at a position is, if it has no defect. -/
def checkNode (edges : Array Nat) (position : Nat) : StoredNode → Except Defect Node
  | .literal value => .ok (.literal value)
  | .reference segments default? => do
    checkChildren position default?.toList
    return .reference ⟨segments⟩ default?
  | .lookup key default? => do
    checkChildren position (key :: default?.toList)
    return .lookup key default?
  | .call name args =>
    match Operator.lookup? name with
    | none => .error (.unknownOperator name)
    | some op => do
      require (args.start + args.length ≤ edges.size) (.spanOutOfBounds args edges.size)
      checkChildren position (Arena.edgesIn ⟨#[], edges⟩ args)
      return .call op args

/-- The nodes that stored nodes from a position on are, if none of them has a defect. -/
def checkNodes (edges : Array Nat) (position : Nat) : List StoredNode → Except Defect (List Node)
  | [] => .ok []
  | stored :: rest => do
    let node ← checkNode edges position stored
    let nodes ← checkNodes edges (position + 1) rest
    return node :: nodes

/-- The compiled rule that a payload is, if it has no defect. -/
def validate (p : Payload) : Except Defect CompiledRule := do
  let nodeCount := p.nodes.length
  let edgeCount := p.edges.length
  require (p.metadata.nodeCount = nodeCount) (.nodeCountMismatch p.metadata.nodeCount nodeCount)
  require (p.metadata.edgeCount = edgeCount) (.edgeCountMismatch p.metadata.edgeCount edgeCount)
  require (p.root < nodeCount) (.rootOutOfBounds p.root nodeCount)
  let edges := p.edges.toArray
  let nodes ← checkNodes edges 0 p.nodes
  let rule := CompiledRule.ofArena ⟨nodes.toArray, edges⟩ p.root
  require (rule.depth = p.metadata.depth) (.depthMismatch p.metadata.depth rule.depth)
  require (rule.depth ≤ defaultMaxDepth) (.tooDeep rule.depth defaultMaxDepth)
  return rule

end Payload

end JsonRules
