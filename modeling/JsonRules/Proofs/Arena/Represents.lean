import JsonRules.Arena.Checked
import JsonRules.Proofs.Term.Meaning
import JsonRules.Proofs.Term.Rule

/-!
# Terms that nodes stand for

A node of an arena stands for a term if it is the node of the term and the nodes that it refers to
stand for the subterms (`Arena.Represents`). Nodes may share subterms, and the arena may have nodes
that have nothing to do with the term. Whatever an arena is used for is determined by the terms that
its nodes stand for: evaluation gives the meaning of the term and decompilation its rule, as soon as
there are as many levels as the term has, and checked reading finds no fault
(`Represents.evaluateWithin_eq`, `Represents.ruleWithin_eq`, `Represents.evaluateChecked_eq`,
`Represents.ruleChecked_eq`).
-/

namespace JsonRules

namespace Arena

/-- The node at a position stands for a term. -/
inductive Represents (arena : Arena) : Nat → Term → Prop where
  | literal {position : Nat} {value : Value} (h : arena.nodes[position]? = some (.literal value)) :
      Represents arena position (.literal value)
  | reference {position : Nat} {path : Path} {default? : Option Nat} {t? : Option Term}
      (h : arena.nodes[position]? = some (.reference path default?))
      (hdefault : Option.Rel (Represents arena) default? t?) :
      Represents arena position (.reference path t?)
  | lookup {position child : Nat} {key : Term} {default? : Option Nat} {t? : Option Term}
      (h : arena.nodes[position]? = some (.lookup child default?))
      (hkey : Represents arena child key)
      (hdefault : Option.Rel (Represents arena) default? t?) :
      Represents arena position (.lookup key t?)
  | call {position : Nat} {op : Operator} {span : Span} {args : List Term}
      (h : arena.nodes[position]? = some (.call op span))
      (hspan : span.start + span.length ≤ arena.edges.size)
      (hargs : List.Forall₂ (Represents arena) (arena.edgesIn span) args) :
      Represents arena position (.call op args)

namespace Represents

variable {arena : Arena} {position levels : Nat} {t : Term}

/-- A position that a term is at has a node, and the node has all the edges that it refers to. -/
theorem exists_nodeAt (h : arena.Represents position t) :
    ∃ node, arena.nodes[position]? = some node ∧ arena.nodeAt position = .ok node := by
  cases h with
  | literal h => exact ⟨_, h, by rw [nodeAt, h]⟩
  | reference h _ => exact ⟨_, h, by rw [nodeAt, h]⟩
  | lookup h _ _ => exact ⟨_, h, by rw [nodeAt, h]⟩
  | call h hspan _ => exact ⟨_, h, by simp only [nodeAt, h, if_pos hspan]⟩

theorem position_lt (h : arena.Represents position t) : position < arena.nodes.size := by
  obtain ⟨node, hnode, -⟩ := h.exists_nodeAt
  exact (Array.getElem?_eq_some_iff.1 hnode).choose

/-! ## Evaluation -/

section Evaluation

variable {m : Type → Type} [Monad m] [LawfulMonad m] [MonadLiftT Logged m]
  [LawfulMonadLiftT Logged m]

/-- Whatever evaluates the nodes of terms with fewer levels to what the terms mean evaluates the
node of a term to what that means. -/
theorem evaluateNode_eq_meaning {eval : Nat → Value → m Value} {node : Node}
    (h : arena.Represents position t) (hlevels : t.depth ≤ levels + 1)
    (hnode : arena.nodes[position]? = some node)
    (heval : ∀ {child : Nat} {s : Term}, arena.Represents child s → s.depth ≤ levels →
      ∀ data, eval child data = monadLift (s.meaning data)) (data : Value) :
    arena.evaluateNode eval node data = monadLift (t.meaning data) := by
  cases h with
  | literal h =>
    obtain rfl := Option.some.inj (h.symm.trans hnode)
    exact (monadLift_pure _).symm
  | reference h hdefault =>
    obtain rfl := Option.some.inj (h.symm.trans hnode)
    rw [Term.depth, Nat.add_le_add_iff_right, Term.optionDepth_le_iff] at hlevels
    exact Term.orDefault_eq_meaning _
      (option_rel_imp hdefault fun _ s hs hchild => heval hchild (hlevels s hs) data)
  | lookup h hkey hdefault =>
    obtain rfl := Option.some.inj (h.symm.trans hnode)
    rw [Term.depth, Nat.add_le_add_iff_right, Nat.max_le, Term.optionDepth_le_iff] at hlevels
    exact Term.lookup_eq_meaning (eval · data) (heval hkey hlevels.1 data)
      (option_rel_imp hdefault fun _ s hs hchild => heval hchild (hlevels.2 s hs) data)
  | call h hspan hargs =>
    obtain rfl := Option.some.inj (h.symm.trans hnode)
    rw [Term.depth, Nat.add_le_add_iff_right, Term.allDepth_le_iff] at hlevels
    exact Term.run_eq_meaning
      (forall₂_imp hargs fun _ _ s hs hchild data => heval hchild (hlevels s hs) data) _ data

end Evaluation

theorem evaluateWithin_eq (h : arena.Represents position t) (hlevels : t.depth ≤ levels)
    (data : Value) : arena.evaluateWithin levels position data = t.meaning data := by
  induction levels generalizing position t data with
  | zero => exact absurd hlevels (Nat.not_le.2 t.depth_pos)
  | succ levels ih =>
    obtain ⟨node, hnode, -⟩ := h.exists_nodeAt
    rw [evaluateWithin, hnode]
    exact evaluateNode_eq_meaning h hlevels hnode (fun hs hdepth data => ih hs hdepth data) data

theorem evaluateChecked_eq (h : arena.Represents position t) (hlevels : t.depth ≤ levels)
    (data : Value) : arena.evaluateChecked levels position data = monadLift (t.meaning data) := by
  induction levels generalizing position t data with
  | zero => exact absurd hlevels (Nat.not_le.2 t.depth_pos)
  | succ levels ih =>
    obtain ⟨node, hnode, hat⟩ := h.exists_nodeAt
    rw [evaluateChecked, hat]
    exact evaluateNode_eq_meaning h hlevels hnode (fun hs hdepth data => ih hs hdepth data) data

/-! ## Decompilation -/

theorem ruleChecked_eq (h : arena.Represents position t) (hlevels : t.depth ≤ levels) :
    arena.ruleChecked levels position = .ok t.toRule := by
  induction levels generalizing position t with
  | zero => exact absurd hlevels (Nat.not_le.2 t.depth_pos)
  | succ levels ih =>
    obtain ⟨node, hnode, hat⟩ := h.exists_nodeAt
    have hdefault : ∀ {default? : Option Nat} {t? : Option Term},
        Option.Rel arena.Represents default? t? → (∀ s ∈ t?, s.depth ≤ levels) →
        default?.mapM (arena.ruleChecked levels) = .ok (t?.map Term.toRule) := by
      intro default? t? hrel hdepth
      refine option_mapM_eq_ok_iff.2 (option_rel_map_right ?_)
      exact option_rel_imp hrel fun _ s hs hchild => ih hchild (hdepth s hs)
    rw [ruleChecked, hat]
    cases h with
    | literal h =>
      obtain rfl := Option.some.inj (h.symm.trans hnode)
      rfl
    | reference h hrel =>
      obtain rfl := Option.some.inj (h.symm.trans hnode)
      rw [Term.depth, Nat.add_le_add_iff_right, Term.optionDepth_le_iff] at hlevels
      rw [Term.toRule, Term.optionToRule_eq_map]
      refine except_bind_eq_ok rfl ?_
      exact except_bind_eq_ok (hdefault hrel hlevels) rfl
    | lookup h hkey hrel =>
      obtain rfl := Option.some.inj (h.symm.trans hnode)
      rw [Term.depth, Nat.add_le_add_iff_right, Nat.max_le, Term.optionDepth_le_iff] at hlevels
      rw [Term.toRule, Term.optionToRule_eq_map]
      refine except_bind_eq_ok rfl ?_
      refine except_bind_eq_ok (ih hkey hlevels.1) ?_
      exact except_bind_eq_ok (hdefault hrel hlevels.2) rfl
    | call h hspan hargs =>
      obtain rfl := Option.some.inj (h.symm.trans hnode)
      rw [Term.depth, Nat.add_le_add_iff_right, Term.allDepth_le_iff] at hlevels
      rw [Term.toRule, Term.allToRule_eq_map]
      have hrules : (arena.edgesIn _).mapM (arena.ruleChecked levels) = .ok _ :=
        list_mapM_eq_ok_iff.2 (List.forall₂_map_right_iff.2
          (forall₂_imp hargs fun _ _ s hs hchild => ih hchild (hlevels s hs)))
      refine except_bind_eq_ok rfl ?_
      exact except_bind_eq_ok hrules rfl

theorem ruleWithin_eq (h : arena.Represents position t) (hlevels : t.depth ≤ levels) :
    arena.ruleWithin levels position = t.toRule := by
  induction levels generalizing position t with
  | zero => exact absurd hlevels (Nat.not_le.2 t.depth_pos)
  | succ levels ih =>
    have hdefault : ∀ {default? : Option Nat} {t? : Option Term},
        Option.Rel arena.Represents default? t? → (∀ s ∈ t?, s.depth ≤ levels) →
        default?.map (arena.ruleWithin levels) = t?.map Term.toRule := by
      intro default? t? hrel hdepth
      exact option_map_eq_map (option_rel_imp hrel fun _ s hs hchild => ih hchild (hdepth s hs))
    cases h with
    | literal h => rw [ruleWithin, h, Term.toRule]
    | reference h hrel =>
      rw [Term.depth, Nat.add_le_add_iff_right, Term.optionDepth_le_iff] at hlevels
      rw [ruleWithin, h, Term.toRule, Term.optionToRule_eq_map, ← hdefault hrel hlevels]
    | lookup h hkey hrel =>
      rw [Term.depth, Nat.add_le_add_iff_right, Nat.max_le, Term.optionDepth_le_iff] at hlevels
      rw [ruleWithin, h, Term.toRule, Term.optionToRule_eq_map, ← hdefault hrel hlevels.2,
        ← ih hkey hlevels.1]
    | call h hspan hargs =>
      rw [Term.depth, Nat.add_le_add_iff_right, Term.allDepth_le_iff] at hlevels
      rw [ruleWithin, h, Term.toRule, Term.allToRule_eq_map, ← list_map_eq_map
        (forall₂_imp hargs fun _ _ s hs hchild => ih hchild (hlevels s hs))]

end Represents

end Arena

end JsonRules
