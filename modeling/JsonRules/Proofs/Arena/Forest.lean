import JsonRules.Proofs.Compilation
import Mathlib.Data.List.Nodup

/-!
# Trees laid out

Terms that are laid out one after another make a forest: a node is either the root of one of them or
is referred to exactly once, and the spans of the calls follow one another without a gap from the
first edge to the last (`Arena.Forest`). Adding a node for the last few roots takes them in and
leaves the node as a root instead (`Forest.push`), so laying out one more term adds one more root
(`Forest.place`). Main statement: a compiled rule is a single tree with its root last
(`Engine.laidOut_of_compile`). Nothing of what folding found to be known is left over, and nothing
is shared.
-/

namespace JsonRules

/-! ## Spans -/

/-- The span of a call. -/
def Node.span? : Node → Option Span
  | .call _ args => some args
  | _ => none

/-- Spans that follow one another without a gap. -/
def Tiles : (start stop : Nat) → List Span → Prop
  | start, stop, [] => start = stop
  | start, stop, span :: rest => span.start = start ∧ Tiles (start + span.length) stop rest

namespace Tiles

variable {start stop : Nat} {spans : List Span}

theorem append {last : Nat} {more : List Span} (h : Tiles start stop spans)
    (hmore : Tiles stop last more) : Tiles start last (spans ++ more) := by
  induction spans generalizing start with
  | nil => exact (show start = stop from h) ▸ hmore
  | cons span rest ih => exact ⟨h.1, ih h.2⟩

theorem start_le (h : Tiles start stop spans) : start ≤ stop := by
  induction spans generalizing start with
  | nil => exact Nat.le_of_eq h
  | cons span rest ih =>
    have := ih h.2
    omega

theorem span_le (h : Tiles start stop spans) {span : Span} (hspan : span ∈ spans) :
    span.start + span.length ≤ stop := by
  induction spans generalizing start with
  | nil => exact absurd hspan List.not_mem_nil
  | cons first rest ih =>
    rcases List.mem_cons.1 hspan with rfl | hmem
    · have hstart := h.1
      have hle := h.2.start_le
      omega
    · exact ih h.2 hmem

end Tiles

namespace Arena

/-- What the nodes refer to, node by node. -/
def references (arena : Arena) : List Nat := arena.nodes.toList.flatMap arena.children

/-- The spans of the calls, node by node. -/
def spans (arena : Arena) : List Span := arena.nodes.toList.filterMap Node.span?

/-! ## Forests -/

/-- Every node is one of the roots or is referred to, once, and every edge is in one span. -/
structure Forest (arena : Arena) (roots : List Nat) : Prop where
  /-- Each node is listed once among what nodes refer to and the roots. -/
  perm : (arena.references ++ roots).Perm (List.range arena.nodes.size)
  /-- The spans follow one another from the first edge to the last. -/
  tiles : Tiles 0 arena.edges.size arena.spans

namespace Forest

variable {arena larger : Arena} {roots : List Nat}

theorem empty : Arena.empty.Forest [] := ⟨.nil, rfl⟩

theorem children_eq (h : arena.Forest roots) (hextends : arena.Extends larger) {node : Node}
    (hnode : node ∈ arena.nodes.toList) : larger.children node = arena.children node := by
  cases node with
  | call op args =>
    have hspan : args ∈ arena.spans := List.mem_filterMap.2 ⟨_, hnode, rfl⟩
    exact hextends.edgesIn_eq (h.tiles.span_le hspan)
  | _ => rfl

/-- A node that refers to the last of the roots takes their place. -/
theorem push {node : Node} {children : List Nat} (h : arena.Forest (roots ++ children))
    (hextends : arena.Extends larger) (hnodes : larger.nodes = arena.nodes.push node)
    (hchildren : larger.children node = children)
    (hspan : Tiles arena.edges.size larger.edges.size node.span?.toList) :
    larger.Forest (roots ++ [arena.nodes.size]) := by
  have hlist : larger.nodes.toList = arena.nodes.toList ++ [node] := by
    rw [hnodes, Array.toList_push]
  constructor
  · have hreferences : larger.references = arena.references ++ children := by
      rw [references, hlist, List.flatMap_append, List.flatMap_singleton, hchildren]
      exact congrArg (· ++ children) (List.flatMap_congr fun _ => h.children_eq hextends)
    rw [hreferences, hnodes, Array.size_push, List.range_succ, ← List.append_assoc]
    refine List.Perm.append_right _ (List.Perm.trans ?_ h.perm)
    rw [List.append_assoc]
    exact List.Perm.append_left _ List.perm_append_comm
  · have hspans : larger.spans = arena.spans ++ node.span?.toList := by
      rw [spans, hlist, List.filterMap_append]
      cases node <;> rfl
    rw [hspans]
    exact h.tiles.append hspan

end Forest

theorem size_edges_addCall (arena : Arena) (op : Operator) (args : List Nat) :
    (arena.addCall op args).1.edges.size = arena.edges.size + args.length := by
  simp [addCall]

mutual

/-- Laying out a term adds its root. -/
theorem Forest.place {arena : Arena} {roots : List Nat} (h : arena.Forest roots) :
    (t : Term) → (arena.place t).1.Forest (roots ++ [(arena.place t).2])
  | .literal value => by
    rw [← List.append_nil roots] at h
    exact h.push (Extends.add ..) rfl rfl rfl
  | .reference path t? => (h.optionPlace t?).push (Extends.add ..) rfl rfl rfl
  | .lookup key t? => by
    -- The roots of the key and of the default are the last two, in this order.
    have hboth := (h.place key).optionPlace t?
    rw [List.append_assoc] at hboth
    exact hboth.push (Extends.add ..) rfl rfl rfl
  | .call op args => by
    refine (h.allPlace args).push (Extends.addCall ..) rfl (edgesIn_addCall ..) ⟨rfl, ?_⟩
    exact (size_edges_addCall ..).symm

theorem Forest.optionPlace {arena : Arena} {roots : List Nat} (h : arena.Forest roots) :
    (t? : Option Term) →
      (arena.optionPlace t?).1.Forest (roots ++ (arena.optionPlace t?).2.toList)
  | none => (List.append_nil roots).symm ▸ h
  | some t => h.place t

theorem Forest.allPlace {arena : Arena} {roots : List Nat} (h : arena.Forest roots) :
    (terms : List Term) → (arena.allPlace terms).1.Forest (roots ++ (arena.allPlace terms).2)
  | [] => (List.append_nil roots).symm ▸ h
  | t :: rest => by
    have hall := (h.place t).allPlace rest
    rw [List.append_assoc] at hall
    exact hall

end

/-- The node of a term is the last one when the term has just been laid out. -/
theorem place_position (arena : Arena) (t : Term) :
    (arena.place t).2 + 1 = (arena.place t).1.nodes.size := by
  cases t with
  | literal value => exact (Array.size_push ..).symm
  | reference path t? => exact (Array.size_push ..).symm
  | lookup key t? => exact (Array.size_push ..).symm
  | call op args => exact (Array.size_push ..).symm

/-! ## Children in their places -/

/-- A node has another one as the child at a place. -/
def ChildAt (arena : Arena) (parent place child : Nat) : Prop :=
  ∃ node, arena.nodes[parent]? = some node ∧ (arena.children node)[place]? = some child

theorem mem_references_iff {arena : Arena} {child : Nat} :
    child ∈ arena.references ↔ ∃ parent place, arena.ChildAt parent place child := by
  unfold references
  rw [List.mem_flatMap]
  constructor
  · rintro ⟨node, hnode, hchild⟩
    obtain ⟨parent, hparent⟩ := List.mem_iff_getElem?.1 hnode
    obtain ⟨place, hplace⟩ := List.mem_iff_getElem?.1 hchild
    exact ⟨parent, place, node, Array.getElem?_toList ▸ hparent, hplace⟩
  · rintro ⟨parent, place, node, hnode, hchild⟩
    exact ⟨node, Array.mem_toList_iff.2 (Array.mem_of_getElem? hnode), List.mem_of_getElem? hchild⟩

/-- What is referred to once has one parent and one place. -/
theorem eq_of_childAt {arena : Arena} (h : arena.references.Nodup)
    {parent place parent' place' child : Nat} (hchild : arena.ChildAt parent place child)
    (hchild' : arena.ChildAt parent' place' child) : parent = parent' ∧ place = place' := by
  obtain ⟨node, hnode, hplace⟩ := hchild
  obtain ⟨node', hnode', hplace'⟩ := hchild'
  rw [← Array.getElem?_toList] at hnode hnode'
  obtain ⟨hparent, rfl⟩ := List.getElem?_eq_some_iff.1 hnode
  obtain ⟨hparent', rfl⟩ := List.getElem?_eq_some_iff.1 hnode'
  obtain ⟨hchildren, hdisjoint⟩ := List.nodup_flatMap.1 h
  have hmem := List.mem_of_getElem? hplace
  have hmem' := List.mem_of_getElem? hplace'
  -- Different parents share no child, and one parent does not list a child twice.
  rcases Nat.lt_trichotomy parent parent' with hlt | rfl | hlt
  · exact absurd hmem' (List.pairwise_iff_getElem.1 hdisjoint _ _ hparent hparent' hlt hmem)
  · refine ⟨rfl, ?_⟩
    have hlength := (List.getElem?_eq_some_iff.1 hplace).1
    exact (List.getElem?_inj hlength (hchildren _ (List.getElem_mem hparent))).1
      (hplace.trans hplace'.symm)
  · exact absurd hmem (List.pairwise_iff_getElem.1 hdisjoint _ _ hparent' hparent hlt hmem')

/-- An arena with a single tree in it, laid out from the leaves to the root. -/
structure LaidOut (arena : Arena) (root : Nat) : Prop where
  /-- The root is the last node. -/
  root_last : root + 1 = arena.nodes.size
  /-- Children come before their parents. -/
  child_lt {parent place child : Nat} (h : arena.ChildAt parent place child) : child < parent
  /-- The root is nobody's child. -/
  not_childAt_root (parent place : Nat) : ¬ arena.ChildAt parent place root
  /-- Every other node is the child of one node, at one place. -/
  existsUnique_childAt {position : Nat} (h : position < root) :
    ∃! edge : Nat × Nat, arena.ChildAt edge.1 edge.2 position
  /-- The spans of the calls follow one another from the first edge to the last. -/
  tiles : Tiles 0 arena.edges.size arena.spans

theorem Forest.laidOut {arena : Arena} {root : Nat} (h : arena.Forest [root])
    (hdescending : arena.Descending) (hroot : root + 1 = arena.nodes.size) :
    arena.LaidOut root := by
  -- The root is the last node, so the references are the nodes before it.
  have hperm : arena.references.Perm (List.range root) := by
    have hall := h.perm
    rw [← hroot, List.range_succ] at hall
    exact (List.perm_append_right_iff _).1 hall
  have hnodup : arena.references.Nodup := hperm.nodup_iff.2 List.nodup_range
  refine ⟨hroot, ?_, fun parent place hchild => ?_, fun {position} hposition => ?_, h.tiles⟩
  · rintro parent place child ⟨node, hnode, hchild⟩
    exact hdescending.child_lt hnode child (List.mem_of_getElem? hchild)
  · have hmem := hperm.mem_iff.1 (mem_references_iff.2 ⟨parent, place, hchild⟩)
    exact Nat.lt_irrefl root (List.mem_range.1 hmem)
  · have hmem := hperm.mem_iff.2 (List.mem_range.2 hposition)
    obtain ⟨parent, place, hchild⟩ := mem_references_iff.1 hmem
    refine ⟨(parent, place), hchild, ?_⟩
    rintro ⟨parent', place'⟩ hchild'
    obtain ⟨rfl, rfl⟩ := eq_of_childAt hnodup hchild hchild'
    rfl

end Arena

theorem CompiledRule.laidOut_ofTerm (t : Term) : (ofTerm t).arena.LaidOut (ofTerm t).root :=
  (Arena.Forest.empty.place t).laidOut (descending_ofTerm t) (Arena.place_position .empty t)

namespace Engine

variable {engine : Engine} {rule : Value} {c : CompiledRule}

/-- A rule is compiled to a single tree that is laid out from the leaves to the root, whether
constants are folded or not. -/
theorem laidOut_of_compile (h : engine.compile rule = .ok c) : c.arena.LaidOut c.root := by
  obtain ⟨t, -, rfl⟩ := compile_eq_ok_iff.1 h
  exact CompiledRule.laidOut_ofTerm _

theorem laidOut_of_compile_guardedLog :
    ({} : Engine).compile guardedLog = .ok (.ofTerm guardedLogTerm) ∧
      (CompiledRule.ofTerm guardedLogTerm).arena.LaidOut (CompiledRule.ofTerm guardedLogTerm).root :=
  ⟨compile_guardedLog, laidOut_of_compile compile_guardedLog⟩

end Engine

end JsonRules
