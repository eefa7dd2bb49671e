import JsonRules.Blob.Payload
import JsonRules.Proofs.Wire.Value

/-!
# Reading back payloads

A payload can be stored if its positions fit the fields that they are written to and its literals
are well-formed (`Payload.Storable`). Such a payload is read back as it was written, whatever it
says about itself (`restores_payload`), and every payload that is read can be stored
(`yields_payload`).
-/

namespace JsonRules

open Wire

/-- A position fits the field that it is written to. -/
def FitsPosition (n : Nat) : Prop := n < 2 ^ (8 * positionWidth)

/-- The positions in a stored node fit their fields, and its literal is well-formed. -/
def StoredNode.Storable : StoredNode → Prop
  | literal value => value.WellFormed
  | reference _ default? => ∀ child ∈ default?, FitsPosition child
  | lookup key default? => FitsPosition key ∧ ∀ child ∈ default?, FitsPosition child
  | call _ args => FitsPosition args.start ∧ FitsPosition args.length

namespace Payload

/-- The positions in a payload fit their fields, and its literals are well-formed. -/
structure Storable (p : Payload) : Prop where
  /-- The nodes can be stored. -/
  node : ∀ stored ∈ p.nodes, stored.Storable
  /-- The edges lead to positions. -/
  edge : ∀ child ∈ p.edges, FitsPosition child
  /-- The root is a position. -/
  root : FitsPosition p.root

/-! ## Nodes -/

theorem restores_nodeTag {tag : Nat} (h : tag < 4) :
    Restores (readVarint positionWidth) (writeVarint tag) tag :=
  restores_position (Nat.lt_trans h (by decide))

theorem restores_child? {default? : Option Nat} (h : ∀ child ∈ default?, FitsPosition child) :
    Restores (readOption readPosition) (writeOption writeVarint default?) default? :=
  restores_option fun child hchild => restores_position (h child hchild)

theorem restores_node {stored : StoredNode} (h : stored.Storable) :
    Restores readNode (writeNode stored) stored := by
  cases stored with
  | literal value =>
    exact (restores_nodeTag (by decide)).bind ((restores_value h).map StoredNode.literal)
  | reference segments default? =>
    have hsegments := restores_list length_writeText_pos fun s (_ : s ∈ segments) => restores_text s
    have hdefault := (restores_child? h).map fun default? => StoredNode.reference segments default?
    rw [writeNode, List.append_assoc]
    exact (restores_nodeTag (by decide)).bind (hsegments.bind hdefault)
  | lookup key default? =>
    have hdefault := (restores_child? h.2).map fun default? => StoredNode.lookup key default?
    rw [writeNode, List.append_assoc]
    exact (restores_nodeTag (by decide)).bind ((restores_position h.1).bind hdefault)
  | call operator args =>
    have hlength := (restores_position h.2).map fun length =>
      StoredNode.call operator ⟨args.start, length⟩
    rw [writeNode, List.append_assoc, List.append_assoc]
    exact (restores_nodeTag (by decide)).bind ((restores_text operator).bind
      ((restores_position h.1).bind hlength))

theorem length_writeNode_pos (stored : StoredNode) : 0 < (writeNode stored).length := by
  have htag : ∃ tag bytes, writeNode stored = writeVarint tag ++ bytes := by
    cases stored with
    | literal value => exact ⟨0, _, rfl⟩
    | reference segments default? => exact ⟨1, _, List.append_assoc ..⟩
    | lookup key default? => exact ⟨2, _, List.append_assoc ..⟩
    | call operator args =>
      exact ⟨3, _, (List.append_assoc ..).trans (List.append_assoc ..)⟩
  obtain ⟨tag, bytes, e⟩ := htag
  rw [e, List.length_append]
  exact Nat.add_pos_left (length_writeVarint_pos tag) _

theorem yields_position : Yields readPosition FitsPosition := yields_varint (by decide)

theorem yields_node : Yields readNode StoredNode.Storable := by
  refine (Yields.trivial _).bind ?_
  intro tag _
  split
  · exact yields_value.bind fun _ hvalue => .pure hvalue
  · exact (Yields.trivial _).bind fun _ _ =>
      (yields_option yields_position).bind fun _ hdefault => .pure hdefault
  · exact yields_position.bind fun _ hkey =>
      (yields_option yields_position).bind fun _ hdefault => .pure ⟨hkey, hdefault⟩
  · exact (Yields.trivial _).bind fun _ _ => yields_position.bind fun _ hstart =>
      yields_position.bind fun _ hlength => .pure ⟨hstart, hlength⟩
  · exact .failure

/-! ## Payloads -/

theorem restores_digest (digest : Digest) : Restores readDigest digest.toList digest := by
  have hlength : digest.toList.length = 32 := Vector.length_toList
  have hbytes := restores_bytes digest.toList
  rw [hlength] at hbytes
  refine hbytes.bind_nil ?_
  rw [dif_pos hlength]
  exact .pure digest

theorem restores_metadata {m : Metadata} (hnodes : m.nodeCount < 2 ^ (8 * countWidth))
    (hedges : m.edgeCount < 2 ^ (8 * countWidth)) (hdepth : m.depth < 2 ^ (8 * countWidth)) :
    Restores readMetadata (writeMetadata m) m := by
  rw [writeMetadata, List.append_assoc, List.append_assoc]
  have hsource := restores_option fun digest (_ : digest ∈ m.source?) => restores_digest digest
  exact (restores_count hnodes).bind ((restores_count hedges).bind ((restores_count hdepth).bind
    (hsource.map fun source? => Metadata.mk m.nodeCount m.edgeCount m.depth source?)))

theorem restores_payload {p : Payload} (h : p.Storable)
    (hnodes : p.metadata.nodeCount < 2 ^ (8 * countWidth))
    (hedges : p.metadata.edgeCount < 2 ^ (8 * countWidth))
    (hdepth : p.metadata.depth < 2 ^ (8 * countWidth)) : Restores read p.write p := by
  have hmetadata := restores_metadata hnodes hedges hdepth
  have hnodeList : Restores (readList readNode) (writeList writeNode p.nodes) p.nodes :=
    restores_list length_writeNode_pos fun stored hs => restores_node (h.node stored hs)
  have hedgeList : Restores (readList readPosition) (writeList writeVarint p.edges) p.edges :=
    restores_list length_writeVarint_pos fun child hc => restores_position (h.edge child hc)
  have hroot := (restores_position h.root).map fun root =>
    Payload.mk p.metadata p.nodes p.edges root
  rw [write, List.append_assoc, List.append_assoc]
  exact hmetadata.bind (hnodeList.bind (hedgeList.bind hroot))

/-- Whatever payload is read can be stored. -/
theorem yields_payload : Yields read Storable :=
  (Yields.trivial _).bind fun _ _ => (yields_list yields_node).bind fun _ hnodes =>
    (yields_list yields_position).bind fun _ hedges => yields_position.bind fun _ hroot =>
      .pure ⟨hnodes, hedges, hroot⟩

/-- There are no more nodes than bytes that they are written in. -/
theorem length_nodes_le (p : Payload) : p.nodes.length ≤ p.write.length := by
  have h := length_le_length_flatMap length_writeNode_pos p.nodes
  rw [write, writeList, List.length_append, List.length_append, List.length_append,
    List.length_append]
  omega

/-- There are no more edges than bytes that they are written in. -/
theorem length_edges_le (p : Payload) : p.edges.length ≤ p.write.length := by
  have h := length_le_length_flatMap length_writeVarint_pos p.edges
  rw [write, writeList, writeList, List.length_append, List.length_append, List.length_append,
    List.length_append, List.length_append]
  omega

end Payload

end JsonRules
