import JsonRules.Arena.Layout
import JsonRules.Proofs.Arena.Descent
import JsonRules.Proofs.Term.Literals

/-!
# Terms laid out

Laying out a term only adds to an arena, and what is there already is not touched
(`Arena.Extends`). The node that the term is laid out at stands for the term afterwards
(`place_spec`), so it does in every arena that is got by adding more.

An arena that terms have been laid out in is *sound*: it is descending, its edges lead to its nodes,
and its literals have every property that the literals of the terms have (`Sound.place`).
-/

namespace JsonRules

namespace Arena

/-- An arena has all that another one has, at the same places. -/
structure Extends (arena larger : Arena) : Prop where
  /-- The nodes come first among the nodes. -/
  nodes : arena.nodes.toList <+: larger.nodes.toList
  /-- The edges come first among the edges. -/
  edges : arena.edges.toList <+: larger.edges.toList

namespace Extends

variable {arena larger : Arena}

theorem refl (arena : Arena) : arena.Extends arena := ⟨List.prefix_rfl, List.prefix_rfl⟩

theorem trans {largest : Arena} (h : arena.Extends larger) (h' : larger.Extends largest) :
    arena.Extends largest :=
  ⟨h.nodes.trans h'.nodes, h.edges.trans h'.edges⟩

theorem getElem?_nodes (h : arena.Extends larger) {position : Nat} {node : Node}
    (hnode : arena.nodes[position]? = some node) : larger.nodes[position]? = some node := by
  rw [← Array.getElem?_toList] at hnode ⊢
  obtain ⟨hlt, e⟩ := List.getElem?_eq_some_iff.1 hnode
  rw [List.prefix_iff_getElem?.1 h.nodes position hlt, e]

theorem size_edges_le (h : arena.Extends larger) : arena.edges.size ≤ larger.edges.size :=
  h.edges.length_le

theorem edgesIn_eq (h : arena.Extends larger) {span : Span}
    (hspan : span.start + span.length ≤ arena.edges.size) :
    larger.edgesIn span = arena.edgesIn span := by
  obtain ⟨more, e⟩ := h.edges
  rw [← Array.length_toList] at hspan
  rw [edgesIn, edgesIn, Array.toList_extract, Array.toList_extract, List.extract, List.extract, ← e,
    List.drop_append_of_le_length (by omega), List.take_append_of_le_length]
  rw [List.length_drop]
  omega

theorem add (arena : Arena) (node : Node) : arena.Extends (arena.add node).1 :=
  ⟨⟨[node], (Array.toList_push ..).symm⟩, List.prefix_rfl⟩

theorem addCall (arena : Arena) (op : Operator) (args : List Nat) :
    arena.Extends (arena.addCall op args).1 :=
  ⟨⟨[_], (Array.toList_push ..).symm⟩, ⟨args, (Array.toList_append ..).symm⟩⟩

end Extends

/-- What a node stands for does not change as an arena grows. -/
theorem Represents.mono {arena larger : Arena} (h : arena.Extends larger) {position : Nat}
    {t : Term} (ht : arena.Represents position t) : larger.Represents position t := by
  induction t generalizing position with
  | literal value =>
    cases ht with
    | literal hnode => exact .literal (h.getElem?_nodes hnode)
  | reference path t? ihDefault =>
    cases ht with
    | reference hnode hdefault =>
      exact .reference (h.getElem?_nodes hnode)
        (option_rel_imp hdefault fun _ s hs hchild => ihDefault s hs hchild)
  | lookup key t? ihKey ihDefault =>
    cases ht with
    | lookup hnode hkey hdefault =>
      exact .lookup (h.getElem?_nodes hnode) (ihKey hkey)
        (option_rel_imp hdefault fun _ s hs hchild => ihDefault s hs hchild)
  | call op args ih =>
    cases ht with
    | call hnode hspan hargs =>
      refine .call (h.getElem?_nodes hnode) (Nat.le_trans hspan h.size_edges_le) ?_
      rw [h.edgesIn_eq hspan]
      exact forall₂_imp hargs fun _ _ s hs hchild => ih s hs hchild

/-! ## What is laid out -/

theorem getElem?_nodes_add (arena : Arena) (node : Node) :
    (arena.add node).1.nodes[(arena.add node).2]? = some node := Array.getElem?_push_size

/-- The edges of a call are those that were added for it. -/
theorem edgesIn_addCall (arena : Arena) (op : Operator) (args : List Nat) :
    (arena.addCall op args).1.edgesIn ⟨arena.edges.size, args.length⟩ = args := by
  rw [edgesIn, addCall, Array.toList_extract, List.extract, Array.toList_append,
    ← Array.length_toList, List.drop_left, Nat.add_sub_cancel_left, List.take_length]

theorem span_le_addCall (arena : Arena) (op : Operator) (args : List Nat) :
    arena.edges.size + args.length ≤ (arena.addCall op args).1.edges.size := by
  simp [addCall]

mutual

/-- A term that is laid out leaves what is there as it is, and the new node stands for it. -/
theorem place_spec (arena : Arena) : (t : Term) →
    arena.Extends (arena.place t).1 ∧ (arena.place t).1.Represents (arena.place t).2 t
  | .literal value => ⟨Extends.add .., .literal (getElem?_nodes_add ..)⟩
  | .reference path t? => by
    obtain ⟨hextends, hdefault⟩ := optionPlace_spec arena t?
    have hadd := Extends.add (arena.optionPlace t?).1 (.reference path (arena.optionPlace t?).2)
    refine ⟨hextends.trans hadd, .reference (getElem?_nodes_add ..) ?_⟩
    exact option_rel_imp hdefault fun _ _ _ => Represents.mono hadd
  | .lookup key t? => by
    obtain ⟨hextendsKey, hkey⟩ := place_spec arena key
    obtain ⟨hextends, hdefault⟩ := optionPlace_spec (arena.place key).1 t?
    have hadd := Extends.add ((arena.place key).1.optionPlace t?).1
      (.lookup (arena.place key).2 ((arena.place key).1.optionPlace t?).2)
    refine ⟨hextendsKey.trans (hextends.trans hadd), .lookup (getElem?_nodes_add ..)
      -- the key was laid out before the default and the node, and still stands where it did
      (hkey.mono (hextends.trans hadd)) ?_⟩
    exact option_rel_imp hdefault fun _ _ _ => Represents.mono hadd
  | .call op args => by
    obtain ⟨hextends, hargs⟩ := allPlace_spec arena args
    have hadd := Extends.addCall (arena.allPlace args).1 op (arena.allPlace args).2
    have hedges := edgesIn_addCall (arena.allPlace args).1 op (arena.allPlace args).2
    refine ⟨hextends.trans hadd, .call Array.getElem?_push_size (span_le_addCall ..) ?_⟩
    exact hedges.symm ▸ hargs.imp fun _ _ => Represents.mono hadd

theorem optionPlace_spec (arena : Arena) : (t? : Option Term) →
    arena.Extends (arena.optionPlace t?).1 ∧
      Option.Rel (arena.optionPlace t?).1.Represents (arena.optionPlace t?).2 t?
  | none => ⟨.refl arena, .none⟩
  | some t => ⟨(place_spec arena t).1, .some (place_spec arena t).2⟩

theorem allPlace_spec (arena : Arena) : (terms : List Term) →
    arena.Extends (arena.allPlace terms).1 ∧
      List.Forall₂ (arena.allPlace terms).1.Represents (arena.allPlace terms).2 terms
  | [] => ⟨.refl arena, .nil⟩
  | t :: rest => by
    obtain ⟨hextends, ht⟩ := place_spec arena t
    obtain ⟨hextendsRest, hrest⟩ := allPlace_spec (arena.place t).1 rest
    exact ⟨hextends.trans hextendsRest, .cons (ht.mono hextendsRest) hrest⟩

end

/-! ## Soundness -/

/-- An arena that can be relied on throughout, and whose literals have a property. -/
structure Sound (P : Value → Prop) (arena : Arena) : Prop where
  /-- Nodes refer only to nodes before them. -/
  descending : arena.Descending
  /-- All edges lead to nodes. -/
  edge_lt : ∀ child ∈ arena.edges.toList, child < arena.nodes.size
  /-- The literals have the property. -/
  literal {position : Nat} {value : Value}
    (h : arena.nodes[position]? = some (.literal value)) : P value

variable {P : Value → Prop}

theorem Extends.children_eq {arena larger : Arena} (h : arena.Extends larger)
    (hdescending : arena.Descending) {position : Nat} {node : Node}
    (hnode : arena.nodes[position]? = some node) : larger.children node = arena.children node := by
  cases node with
  | call op args => exact h.edgesIn_eq (hdescending.span_le hnode)
  | _ => rfl

/-- An arena stays sound when edges are added to it and a node that refers to what was there. -/
theorem Sound.push {arena larger : Arena} {node : Node} (h : arena.Sound P)
    (hextends : arena.Extends larger) (hnodes : larger.nodes = arena.nodes.push node)
    (hedges : ∀ child ∈ larger.edges.toList, child < arena.nodes.size)
    (hchildren : ∀ child ∈ larger.children node, child < arena.nodes.size)
    (hspan : ∀ op args, node = .call op args → args.start + args.length ≤ larger.edges.size)
    (hliteral : ∀ value, node = .literal value → P value) : larger.Sound P := by
  -- a node of the larger arena is the one that was added or one that was there
  have hcases : ∀ {position : Nat} {n : Node}, larger.nodes[position]? = some n →
      position = arena.nodes.size ∧ n = node ∨ arena.nodes[position]? = some n := by
    intro position n hn
    rw [hnodes, Array.getElem?_push] at hn
    split at hn
    · exact .inl ⟨‹_›, (Option.some.inj hn).symm⟩
    · exact .inr hn
  refine ⟨⟨fun hn => ?_, fun hn => ?_⟩, fun child hchild => ?_, fun hn => ?_⟩
  · rcases hcases hn with ⟨rfl, rfl⟩ | hn
    · exact hchildren
    · rw [hextends.children_eq h.descending hn]
      exact h.descending.child_lt hn
  · rcases hcases hn with ⟨rfl, rfl⟩ | hn
    · exact hspan _ _ rfl
    · exact Nat.le_trans (h.descending.span_le hn) hextends.size_edges_le
  · rw [hnodes, Array.size_push]
    exact Nat.lt_succ_of_lt (hedges child hchild)
  · rcases hcases hn with ⟨rfl, rfl⟩ | hn
    · exact hliteral _ rfl
    · exact h.literal hn

theorem Sound.empty : empty.Sound P :=
  ⟨⟨fun h => absurd h (by simp [Arena.empty]), fun h => absurd h (by simp [Arena.empty])⟩,
    fun _ h => absurd h List.not_mem_nil, fun h => absurd h (by simp [Arena.empty])⟩

theorem position_lt_of_option_rel {arena : Arena} {default? : Option Nat} {t? : Option Term}
    (h : Option.Rel arena.Represents default? t?) :
    ∀ child ∈ default?.toList, child < arena.nodes.size := by
  cases h with
  | none => exact fun _ hc => absurd hc List.not_mem_nil
  | some hchild => exact fun _ hc => List.mem_singleton.1 hc ▸ hchild.position_lt

mutual

/-- An arena stays sound when a term is laid out in it whose literals have the property. -/
theorem Sound.place {arena : Arena} (h : arena.Sound P) :
    {t : Term} → t.LiteralsIn P → (arena.place t).1.Sound P
  | .literal value, ht => by
    refine h.push (Extends.add ..) rfl h.edge_lt (fun _ hc => absurd hc List.not_mem_nil)
      (fun _ _ e => absurd e (by simp)) fun _ e => ?_
    cases ht with
    | literal hvalue => exact Node.literal.inj e ▸ hvalue
  | .reference path t?, ht => by
    cases ht with
    | reference hin =>
      have hsound := h.optionPlace hin
      have hdefault := (optionPlace_spec arena t?).2
      exact hsound.push (Extends.add ..) rfl hsound.edge_lt (position_lt_of_option_rel hdefault)
        (fun _ _ e => absurd e (by simp)) fun _ e => absurd e (by simp)
  | .lookup key t?, ht => by
    cases ht with
    | lookup hkeyIn hin =>
      have hsound := (h.place hkeyIn).optionPlace hin
      have hkey := (place_spec arena key).2
      obtain ⟨hextends, hdefault⟩ := optionPlace_spec (arena.place key).1 t?
      refine hsound.push (Extends.add ..) rfl hsound.edge_lt ?_
        (fun _ _ e => absurd e (by simp)) fun _ e => absurd e (by simp)
      exact List.forall_mem_cons.2
        ⟨(hkey.mono hextends).position_lt, position_lt_of_option_rel hdefault⟩
  | .call op args, ht => by
    cases ht with
    | call hin =>
      have hsound := h.allPlace hin
      have hargs := forall_of_forall₂ (allPlace_spec arena args).2.flip
        fun _ _ _ hchild => hchild.position_lt
      refine hsound.push (Extends.addCall ..) rfl (fun child hchild => ?_) ?_
        (fun _ _ e => ?_) fun _ e => absurd e (by simp)
      · rcases List.mem_append.1 (Array.toList_append .. ▸ hchild) with hmem | hmem
        · exact hsound.edge_lt child hmem
        · exact hargs child hmem
      · have hedges := edgesIn_addCall (arena.allPlace args).1 op (arena.allPlace args).2
        exact fun child (hc : child ∈ edgesIn _ _) => hargs child (hedges ▸ hc)
      · obtain ⟨-, rfl⟩ := Node.call.inj e
        exact span_le_addCall ..

theorem Sound.optionPlace {arena : Arena} (h : arena.Sound P) :
    {t? : Option Term} → (∀ t ∈ t?, t.LiteralsIn P) → (arena.optionPlace t?).1.Sound P
  | none, _ => h
  | some t, ht => h.place (ht t rfl)

theorem Sound.allPlace {arena : Arena} (h : arena.Sound P) :
    {terms : List Term} → (∀ t ∈ terms, t.LiteralsIn P) → (arena.allPlace terms).1.Sound P
  | [], _ => h
  | t :: _, ht =>
    (h.place (ht t List.mem_cons_self)).allPlace fun s hs => ht s (List.mem_cons_of_mem _ hs)

end

end Arena

end JsonRules
