import JsonRules.CompiledRule
import JsonRules.Wire.Value

/-!
# Payloads

The payload of a blob is an arena as it is stored, with some metadata before it: the numbers of
nodes and edges, the depth, and the digest of the text that the rule came from, if that is known.
Stored nodes name their operators. Nothing about a payload that has been read can be relied on
beyond its shape; whether it is an arena is decided separately.
-/

namespace JsonRules

/-- A digest of thirty-two bytes. -/
abbrev Digest := Vector UInt8 32

/-- What a payload says about itself. -/
structure Metadata where
  /-- The number of nodes. -/
  nodeCount : Nat
  /-- The number of edges. -/
  edgeCount : Nat
  /-- The number of levels. -/
  depth : Nat
  /-- The digest of the text of the rule. -/
  source? : Option Digest

/-- A node as it is stored. -/
inductive StoredNode where
  /-- A value that stands for itself. -/
  | literal (value : Value)
  /-- A variable with a known path. -/
  | reference (segments : List String) (default? : Option Nat)
  /-- A variable whose key is computed. -/
  | lookup (key : Nat) (default? : Option Nat)
  /-- The call of an operator, given by its name. -/
  | call (operator : String) (args : Span)

/-- A stored arena. -/
structure Payload where
  /-- What the payload says about itself. -/
  metadata : Metadata
  /-- The nodes in order. -/
  nodes : List StoredNode
  /-- The edges in order. -/
  edges : List Nat
  /-- The position of the root. -/
  root : Nat

/-- The stored form of a node. -/
def StoredNode.ofNode : Node → StoredNode
  | .literal value => literal value
  | .reference path default? => reference path.segments default?
  | .lookup key default? => lookup key default?
  | .call op args => call op.name args

namespace Payload

open Wire

/-- The stored form of a compiled rule. -/
def ofRule (rule : CompiledRule) (source? : Option Digest) : Payload where
  metadata := ⟨rule.nodeCount, rule.edgeCount, rule.depth, source?⟩
  nodes := rule.arena.nodes.toList.map .ofNode
  edges := rule.arena.edges.toList
  root := rule.root

/-- The bytes of metadata. -/
def writeMetadata (m : Metadata) : List UInt8 :=
  writeVarint m.nodeCount ++ writeVarint m.edgeCount ++ writeVarint m.depth
    ++ writeOption (fun digest : Digest => digest.toList) m.source?

/-- The bytes of a node: the number of its constructor and what it holds. -/
def writeNode : StoredNode → List UInt8
  | .literal value => writeVarint 0 ++ writeValue value
  | .reference segments default? =>
    writeVarint 1 ++ writeList writeText segments ++ writeOption writeVarint default?
  | .lookup key default? => writeVarint 2 ++ writeVarint key ++ writeOption writeVarint default?
  | .call operator args =>
    writeVarint 3 ++ writeText operator ++ writeVarint args.start ++ writeVarint args.length

/-- The bytes of a payload. -/
def write (p : Payload) : List UInt8 :=
  writeMetadata p.metadata ++ writeList writeNode p.nodes ++ writeList writeVarint p.edges
    ++ writeVarint p.root

/-- Reads a digest. -/
def readDigest : Reader Digest := do
  let bytes ← readBytes 32
  if h : bytes.length = 32 then return ⟨bytes.toArray, by simpa using h⟩ else failure

/-- Reads metadata. -/
def readMetadata : Reader Metadata := do
  let nodeCount ← readVarint countWidth
  let edgeCount ← readVarint countWidth
  let depth ← readVarint countWidth
  let source? ← readOption readDigest
  return ⟨nodeCount, edgeCount, depth, source?⟩

/-- Reads a position. -/
def readPosition : Reader Nat := readVarint positionWidth

/-- Reads a node. -/
def readNode : Reader StoredNode := do
  match ← readVarint positionWidth with
  | 0 => return .literal (← readValue)
  | 1 =>
    let segments ← readList readText
    let default? ← readOption readPosition
    return .reference segments default?
  | 2 =>
    let key ← readPosition
    let default? ← readOption readPosition
    return .lookup key default?
  | 3 =>
    let operator ← readText
    let start ← readPosition
    let length ← readPosition
    return .call operator ⟨start, length⟩
  | _ => failure

/-- Reads a payload. -/
def read : Reader Payload := do
  let metadata ← readMetadata
  let nodes ← readList readNode
  let edges ← readList readPosition
  let root ← readPosition
  return ⟨metadata, nodes, edges, root⟩

end Payload

end JsonRules
