import JsonRules.Proofs.Arena.Represents
import Mathlib.Data.List.Chain
import Mathlib.Order.Bounds.Defs

/-!
# Descending arenas

An arena is *descending* if its nodes refer only to nodes before them and its calls only to edges
that there are. In such an arena every node stands for a term (`Descending.exists_represents`), so
it can be read from any node without a fault. The levels that `Arena.depths` measures in one pass
are those of the terms (`Represents.depthAt_eq`), and they are the lengths of the longest paths
downwards (`Descending.isGreatest_depthAt`).
-/

namespace JsonRules

namespace Arena

/-- Nodes refer only to nodes before them, and calls only to edges that there are. -/
structure Descending (arena : Arena) : Prop where
  /-- What a node refers to comes before it. -/
  child_lt {position : Nat} {node : Node} (h : arena.nodes[position]? = some node) :
    ∀ child ∈ arena.children node, child < position
  /-- The arguments of a call are among the edges. -/
  span_le {position : Nat} {op : Operator} {args : Span}
    (h : arena.nodes[position]? = some (.call op args)) :
    args.start + args.length ≤ arena.edges.size

/-! ## Every node stands for a term -/

theorem Descending.exists_represents {arena : Arena} (h : arena.Descending) {position : Nat}
    (hposition : position < arena.nodes.size) : ∃ t, arena.Represents position t := by
  induction position using Nat.strong_induction_on with
  | _ position ih =>
    have hnode : arena.nodes[position]? = some arena.nodes[position] :=
      Array.getElem?_eq_getElem hposition
    have hchild : ∀ child ∈ arena.children arena.nodes[position],
        ∃ t, arena.Represents child t := by
      intro child hmem
      have hlt := h.child_lt hnode child hmem
      exact ih child hlt (Nat.lt_trans hlt hposition)
    cases hcase : arena.nodes[position] with
    | literal value => exact ⟨_, .literal (hcase ▸ hnode)⟩
    | reference path default? =>
      rw [hcase] at hnode hchild
      obtain ⟨t?, hdefault⟩ := exists_option_rel fun child hmem =>
        hchild child (Option.mem_toList.2 hmem)
      exact ⟨_, .reference hnode hdefault⟩
    | lookup key default? =>
      rw [hcase] at hnode hchild
      obtain ⟨t, hkey⟩ := hchild key List.mem_cons_self
      obtain ⟨t?, hdefault⟩ := exists_option_rel fun child hmem =>
        hchild child (List.mem_cons_of_mem _ (Option.mem_toList.2 hmem))
      exact ⟨_, .lookup hnode hkey hdefault⟩
    | call op args =>
      rw [hcase] at hnode hchild
      obtain ⟨terms, hargs⟩ := exists_forall₂ hchild
      exact ⟨_, .call hnode (h.span_le hnode) hargs⟩

namespace Represents

variable {arena : Arena} {position : Nat} {node : Node} {t : Term}

/-- The nodes that a node refers to stand for the terms inside its own. -/
theorem children (h : arena.Represents position t) (hnode : arena.nodes[position]? = some node) :
    List.Forall₂ arena.Represents (arena.children node) t.subterms := by
  cases h with
  | literal h =>
    obtain rfl := Option.some.inj (h.symm.trans hnode)
    exact .nil
  | reference h hrel =>
    obtain rfl := Option.some.inj (h.symm.trans hnode)
    exact forall₂_toList hrel
  | lookup h hkey hrel =>
    obtain rfl := Option.some.inj (h.symm.trans hnode)
    exact .cons hkey (forall₂_toList hrel)
  | call h _ hargs =>
    obtain rfl := Option.some.inj (h.symm.trans hnode)
    exact hargs

end Represents

/-! ## Levels -/

theorem levelAbove_le_iff {levels : List Nat} {n : Nat} :
    levelAbove levels ≤ n + 1 ↔ ∀ level ∈ levels, level ≤ n := by
  have hfoldl : ∀ a : Nat, levels.foldl max a ≤ n ↔ a ≤ n ∧ ∀ level ∈ levels, level ≤ n := by
    induction levels with
    | nil => simp
    | cons m rest ih =>
      intro a
      rw [List.foldl_cons, ih, Nat.max_le, List.forall_mem_cons, and_assoc]
  rw [levelAbove, Nat.add_le_add_iff_right, hfoldl, and_iff_right (Nat.zero_le n)]

/-- The depth of a term by the depths of the terms inside it. -/
theorem levelAbove_depths (t : Term) : levelAbove (t.subterms.map Term.depth) = t.depth := by
  have hle : ∀ n, levelAbove (t.subterms.map Term.depth) ≤ n + 1 ↔ t.depth ≤ n + 1 := by
    intro n
    rw [levelAbove_le_iff, List.forall_mem_map, Term.depth_le_iff]
  obtain ⟨n, hn⟩ := Nat.exists_eq_add_one.2 t.depth_pos
  exact Nat.le_antisymm (hn ▸ (hle n).2 (Nat.le_of_eq hn)) ((hle _).1 (Nat.le_refl _))

/-- One pass from the first node to the last finds the depths of the terms that nodes stand for. The
invariant is that it has found them for the nodes that it has come past. -/
theorem Descending.depths_eq {arena : Arena} (h : arena.Descending) :
    arena.depths.size = arena.nodes.size ∧ ∀ position t, position < arena.nodes.size →
      arena.Represents position t → arena.depths[position]? = some t.depth := by
  refine Array.foldl_induction (fun count (levels : Array Nat) => levels.size = count ∧
    ∀ position t, position < count → arena.Represents position t →
      levels[position]? = some t.depth)
    ⟨rfl, fun _ _ hlt => absurd hlt (Nat.not_lt_zero _)⟩ ?_
  rintro ⟨count, hcount⟩ levels ⟨hsize, hlevels⟩
  refine ⟨by rw [Array.size_push, hsize], fun position t hposition ht => ?_⟩
  rw [Array.getElem?_push, hsize]
  by_cases hlast : position = count
  · subst hlast
    have hnode : arena.nodes[position]? = some arena.nodes[position] :=
      Array.getElem?_eq_getElem hcount
    rw [if_pos rfl, ← levelAbove_depths t]
    -- all children have been come past, so their levels are found and none is left out
    refine congrArg (some <| levelAbove ·) (list_filterMap_eq_map ?_)
    exact forall₂_imp (ht.children hnode) fun child hmem s _ hs =>
      hlevels child s (h.child_lt hnode child hmem) hs
  · have hlt : position < count := Nat.lt_of_le_of_ne (Nat.le_of_lt_succ hposition) hlast
    rw [if_neg hlast, hlevels position t hlt ht]

namespace Represents

variable {arena : Arena} {position : Nat} {t : Term}

theorem depthAt_eq (ht : arena.Represents position t) (h : arena.Descending) :
    arena.depthAt position = t.depth := by
  rw [depthAt, h.depths_eq.2 position t ht.position_lt ht, Option.getD_some]

/-- A node has no more levels than there are nodes up to it. -/
theorem depth_le (ht : arena.Represents position t) (h : arena.Descending) :
    t.depth ≤ position + 1 := by
  induction position using Nat.strong_induction_on generalizing t with
  | _ position ih =>
    obtain ⟨node, hnode, -⟩ := ht.exists_nodeAt
    refine Term.depth_le_iff.2 ?_
    intro s hs
    obtain ⟨child, hmem, hchild⟩ := exists_mem_left_of_forall₂ (ht.children hnode) hs
    have hlt := h.child_lt hnode child hmem
    exact Nat.le_trans (ih child hlt hchild) hlt

end Represents

/-! ## Paths downwards -/

/-- A node refers to another. -/
def Refers (arena : Arena) (parent child : Nat) : Prop :=
  ∃ node, arena.nodes[parent]? = some node ∧ child ∈ arena.children node

/-- The numbers of nodes on the paths downwards from a position. -/
def pathLengths (arena : Arena) (position : Nat) : Set Nat :=
  {n | ∃ below, (position :: below).IsChain arena.Refers ∧ (position :: below).length = n}

namespace Represents

variable {arena : Arena} {position : Nat} {t : Term}

theorem length_le_depth {below : List Nat} (ht : arena.Represents position t)
    (hpath : (position :: below).IsChain arena.Refers) : (position :: below).length ≤ t.depth := by
  induction below generalizing position t with
  | nil => exact t.depth_pos
  | cons child rest ih =>
    obtain ⟨⟨node, hnode, hmem⟩, hrest⟩ := List.isChain_cons_cons.1 hpath
    obtain ⟨s, hs, hchild⟩ := exists_mem_right_of_forall₂ (ht.children hnode) hmem
    have := ih hchild hrest
    have := Term.depth_lt_of_mem_subterms hs
    rw [List.length_cons]
    omega

theorem depth_mem_pathLengths (ht : arena.Represents position t) :
    t.depth ∈ arena.pathLengths position := by
  induction hn : t.depth generalizing position t with
  | zero => exact absurd hn (Nat.ne_of_gt t.depth_pos)
  | succ n ih =>
    rcases t.depth_cases with hone | ⟨s, hs, hsucc⟩
    · exact ⟨[], .singleton position, hone.symm.trans hn⟩
    · obtain ⟨node, hnode, -⟩ := ht.exists_nodeAt
      obtain ⟨child, hmem, hchild⟩ := exists_mem_left_of_forall₂ (ht.children hnode) hs
      obtain ⟨below, hpath, hlength⟩ := ih hchild (Nat.succ.inj (hsucc.symm.trans hn))
      exact ⟨child :: below, List.isChain_cons_cons.2 ⟨⟨node, hnode, hmem⟩, hpath⟩,
        congrArg (· + 1) hlength⟩

end Represents

/-- The depth that is measured is the length of the longest path downwards. -/
theorem Descending.isGreatest_depthAt {arena : Arena} (h : arena.Descending) {position : Nat}
    (hposition : position < arena.nodes.size) :
    IsGreatest (arena.pathLengths position) (arena.depthAt position) := by
  obtain ⟨t, ht⟩ := h.exists_represents hposition
  rw [ht.depthAt_eq h]
  refine ⟨ht.depth_mem_pathLengths, ?_⟩
  rintro _ ⟨below, hpath, rfl⟩
  exact ht.length_le_depth hpath

end Arena

end JsonRules
