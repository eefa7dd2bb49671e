import JsonRules.Blob.Validation
import JsonRules.Proofs.Arena.Descent

/-!
# What validation accepts

A compiled rule can be relied on if its arena is descending, its root is in the arena and its depth
is that of the root (`CompiledRule.Reliable`). Validation accepts exactly the stored forms of
reliable rules that are not too deep, and gives these rules back: the stored form of a reliable rule
is accepted up to the check of its depth (`validate_ofRule`), and a payload that is accepted is the
stored form of the rule that it is accepted as (`eq_ofRule_of_validate`).
-/

namespace JsonRules

/-- A compiled rule that can be relied on. -/
structure CompiledRule.Reliable (c : CompiledRule) : Prop where
  /-- Nodes refer only to nodes before them. -/
  descending : c.arena.Descending
  /-- The root is one of the nodes. -/
  root_lt : c.root < c.arena.nodes.size
  /-- The depth is the number of levels below the root. -/
  depth_eq : c.arena.depthAt c.root = c.depth

/-- A node at a position refers only to nodes before it and to edges that there are. -/
structure Arena.Descends (arena : Arena) (position : Nat) (node : Node) : Prop where
  /-- What the node refers to comes before it. -/
  child_lt : ∀ child ∈ arena.children node, child < position
  /-- The arguments of a call are among the edges. -/
  span_le : ∀ op args, node = .call op args → args.start + args.length ≤ arena.edges.size

theorem Arena.descending_iff {arena : Arena} :
    arena.Descending ↔
      ∀ position node, arena.nodes[position]? = some node → arena.Descends position node := by
  constructor
  · intro h position node hnode
    exact ⟨h.child_lt hnode, fun op args e => h.span_le (e ▸ hnode)⟩
  · intro h
    exact ⟨fun hnode => (h _ _ hnode).child_lt, fun hnode => (h _ _ hnode).span_le _ _ rfl⟩

/-- Whether a node refers only to what comes before it is a matter of the edges. -/
theorem Arena.descends_iff_of_edges {edges : Array Nat} (nodes nodes' : Array Node) (position : Nat)
    (node : Node) :
    Arena.Descends ⟨nodes, edges⟩ position node ↔ Arena.Descends ⟨nodes', edges⟩ position node := by
  have hchildren : Arena.children ⟨nodes, edges⟩ node = Arena.children ⟨nodes', edges⟩ node := by
    cases node <;> rfl
  exact ⟨fun h => ⟨hchildren ▸ h.child_lt, h.span_le⟩, fun h => ⟨hchildren ▸ h.child_lt, h.span_le⟩⟩

namespace Payload

variable {edges : Array Nat}

/-! ## Checks -/

theorem require_eq_ok_iff {condition : Prop} [Decidable condition] {defect : Defect} {u : Unit} :
    require condition defect = .ok u ↔ condition := by
  unfold require
  split <;> simp_all

theorem checkChildren_eq_ok_iff {parent : Nat} {children : List Nat} {u : Unit} :
    checkChildren parent children = .ok u ↔ ∀ child ∈ children, child < parent := by
  induction children with
  | nil => simp [checkChildren]
  | cons child rest ih =>
    rw [checkChildren, except_bind_eq_ok_iff, List.forall_mem_cons, checkChild]
    simp only [require_eq_ok_iff, ih]
    exact ⟨fun ⟨_, h⟩ => h, fun h => ⟨(), h⟩⟩

theorem checkCall_eq_ok_iff {position : Nat} {name : String} {args : Span} {node : Node} :
    checkNode edges position (.call name args) = .ok node ↔
      ∃ op : Operator, op.name = name ∧ node = .call op args ∧
        args.start + args.length ≤ edges.size ∧
        ∀ child ∈ Arena.edgesIn ⟨#[], edges⟩ args, child < position := by
  rw [checkNode]
  constructor
  · intro h
    split at h
    · exact absurd h (by simp)
    · rename_i op hop
      obtain ⟨_, hspan, h⟩ := except_bind_eq_ok_iff.1 h
      obtain ⟨_, hchildren, h⟩ := except_bind_eq_ok_iff.1 h
      exact ⟨op, Operator.name_of_lookup? hop, (Except.ok.inj h).symm,
        require_eq_ok_iff.1 hspan, checkChildren_eq_ok_iff.1 hchildren⟩
  · rintro ⟨op, rfl, rfl, hspan, hchildren⟩
    rw [Operator.lookup?_name]
    refine except_bind_eq_ok (a := ()) (require_eq_ok_iff.2 hspan) ?_
    exact except_bind_eq_ok (a := ()) (checkChildren_eq_ok_iff.2 hchildren) rfl

/-- A stored node is accepted as the node that it is the stored form of, if that refers only to what
comes before it. -/
theorem checkNode_eq_ok_iff {position : Nat} {stored : StoredNode} {node : Node} :
    checkNode edges position stored = .ok node ↔
      stored = .ofNode node ∧ Arena.Descends ⟨#[], edges⟩ position node := by
  constructor
  · intro h
    cases stored with
    | literal value =>
      obtain rfl := Except.ok.inj h
      exact ⟨rfl, fun _ hc => absurd hc List.not_mem_nil, fun _ _ e => absurd e (by simp)⟩
    | reference segments default? =>
      obtain ⟨_, hchildren, h⟩ := except_bind_eq_ok_iff.1 h
      obtain rfl := Except.ok.inj h
      exact ⟨rfl, checkChildren_eq_ok_iff.1 hchildren, fun _ _ e => absurd e (by simp)⟩
    | lookup key default? =>
      obtain ⟨_, hchildren, h⟩ := except_bind_eq_ok_iff.1 h
      obtain rfl := Except.ok.inj h
      exact ⟨rfl, checkChildren_eq_ok_iff.1 hchildren, fun _ _ e => absurd e (by simp)⟩
    | call name args =>
      obtain ⟨op, rfl, rfl, hspan, hchildren⟩ := checkCall_eq_ok_iff.1 h
      exact ⟨rfl, hchildren, fun _ _ e => (Node.call.inj e).2 ▸ hspan⟩
  · rintro ⟨rfl, hdescends⟩
    cases node with
    | literal value => rfl
    | reference path default? =>
      exact except_bind_eq_ok (a := ()) (checkChildren_eq_ok_iff.2 hdescends.child_lt) rfl
    | lookup key default? =>
      exact except_bind_eq_ok (a := ()) (checkChildren_eq_ok_iff.2 hdescends.child_lt) rfl
    | call op args =>
      exact checkCall_eq_ok_iff.2
        ⟨op, rfl, rfl, hdescends.span_le op args rfl, hdescends.child_lt⟩

theorem checkNodes_eq_ok_iff {position : Nat} {stored : List StoredNode} {nodes : List Node} :
    checkNodes edges position stored = .ok nodes ↔
      stored = nodes.map .ofNode ∧ ∀ i node, nodes[i]? = some node →
        Arena.Descends ⟨#[], edges⟩ (position + i) node := by
  induction stored generalizing position nodes with
  | nil =>
    rw [checkNodes]
    constructor
    · intro h
      obtain rfl := Except.ok.inj h
      exact ⟨rfl, fun i node h => absurd h (by simp)⟩
    · rintro ⟨h, -⟩
      rw [List.map_eq_nil_iff.1 h.symm]
  | cons first rest ih =>
    rw [checkNodes]
    simp only [except_bind_eq_ok_iff, checkNode_eq_ok_iff, ih]
    constructor
    · rintro ⟨node, ⟨rfl, hnode⟩, nodes, ⟨rfl, hnodes⟩, h⟩
      obtain rfl := Except.ok.inj h
      refine ⟨rfl, fun i n hn => ?_⟩
      cases i with
      | zero => exact Option.some.inj hn ▸ hnode
      | succ i =>
        have hi := hnodes i n hn
        rwa [Nat.add_assoc, Nat.add_comm 1 i] at hi
    · rintro ⟨h, hnodes⟩
      cases nodes with
      | nil => exact absurd h (by simp)
      | cons node nodes =>
        obtain ⟨rfl, rfl⟩ := List.cons.inj h
        refine ⟨node, ⟨rfl, hnodes 0 node rfl⟩, nodes, ⟨rfl, fun i n hn => ?_⟩, rfl⟩
        rw [Nat.add_assoc, Nat.add_comm 1 i]
        exact hnodes (i + 1) n hn

/-! ## Payloads -/

/-- Nodes are accepted if they are the stored forms of the nodes of a descending arena. -/
theorem checkNodes_zero_eq_ok_iff {stored : List StoredNode} {nodes : List Node} :
    checkNodes edges 0 stored = .ok nodes ↔
      stored = nodes.map .ofNode ∧ Arena.Descending ⟨nodes.toArray, edges⟩ := by
  rw [checkNodes_eq_ok_iff, Arena.descending_iff]
  simp only [Nat.zero_add, List.getElem?_toArray]
  exact and_congr_right fun _ => forall₃_congr fun _ _ _ => Arena.descends_iff_of_edges ..

/-- The stored form of a rule that can be relied on is accepted if the rule is not too deep. -/
theorem validate_ofRule {c : CompiledRule} (h : c.Reliable) (source? : Option Digest) :
    (ofRule c source?).validate =
      if c.depth ≤ defaultMaxDepth then .ok c else .error (.tooDeep c.depth defaultMaxDepth) := by
  have hnodes : checkNodes c.arena.edges 0 (c.arena.nodes.toList.map .ofNode) =
      .ok c.arena.nodes.toList := checkNodes_zero_eq_ok_iff.2 ⟨rfl, h.descending⟩
  have hrule : CompiledRule.ofArena ⟨c.arena.nodes, c.arena.edges⟩ c.root = c := by
    rw [CompiledRule.ofArena, h.depth_eq]
  simp only [validate, ofRule, List.length_map, Array.length_toList, CompiledRule.nodeCount,
    CompiledRule.edgeCount, Array.toArray_toList, require, if_true, if_pos h.root_lt, hnodes,
    bind, Except.bind, hrule]
  by_cases hdepth : c.depth ≤ defaultMaxDepth
  · rw [if_pos hdepth, if_pos hdepth]
    rfl
  · rw [if_neg hdepth, if_neg hdepth]

/-- A payload that is accepted is the stored form of the rule that it is accepted as, and that rule
can be relied on and is not too deep. -/
theorem eq_ofRule_of_validate {p : Payload} {c : CompiledRule} (h : p.validate = .ok c) :
    p = ofRule c p.metadata.source? ∧ c.Reliable ∧ c.depth ≤ defaultMaxDepth := by
  obtain ⟨⟨nodeCount, edgeCount, depth, source?⟩, stored, edges, root⟩ := p
  obtain ⟨_, hnodeCheck, h⟩ := except_bind_eq_ok_iff.1 h
  obtain ⟨_, hedgeCheck, h⟩ := except_bind_eq_ok_iff.1 h
  obtain ⟨_, hrootCheck, h⟩ := except_bind_eq_ok_iff.1 h
  obtain ⟨nodes, hnodes, h⟩ := except_bind_eq_ok_iff.1 h
  obtain ⟨_, hdepthCheck, h⟩ := except_bind_eq_ok_iff.1 h
  obtain ⟨_, hlimitCheck, h⟩ := except_bind_eq_ok_iff.1 h
  obtain ⟨rfl, hdescending⟩ := checkNodes_zero_eq_ok_iff.1 hnodes
  have hnodeCount : nodeCount = (nodes.map StoredNode.ofNode).length :=
    require_eq_ok_iff.1 hnodeCheck
  have hedgeCount : edgeCount = edges.length := require_eq_ok_iff.1 hedgeCheck
  have hroot : root < (nodes.map StoredNode.ofNode).length := require_eq_ok_iff.1 hrootCheck
  have hdepth : Arena.depthAt ⟨nodes.toArray, edges.toArray⟩ root = depth :=
    require_eq_ok_iff.1 hdepthCheck
  have hlimit := require_eq_ok_iff.1 hlimitCheck
  rw [List.length_map] at hnodeCount hroot
  subst hnodeCount hedgeCount hdepth
  obtain rfl := Except.ok.inj h
  exact ⟨rfl, ⟨hdescending, hroot, rfl⟩, hlimit⟩

end Payload

end JsonRules
