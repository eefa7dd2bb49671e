import JsonRules.Proofs.Rule.Fault
import Mathlib.Algebra.Order.BigOperators.Group.List
import Mathlib.Algebra.Order.Ring.Nat

/-!
# The extent of compiled rules

A rule has so many positions and they are so deep (`Value.positionCount`, `Value.positionDepth`); a
term has a size and a depth, which the term of a rule shares with the rule; and a compiled rule has
a node for every subterm of the term that it was laid out from. Folding makes terms smaller and less
deep. So without folding a compiled rule has exactly the extent of the rule, and with folding at
most that (`Engine.extent_of_compile`). On the way there no draft has more nodes or edges than the
rule has positions either (`Compilation.size_le_of_run`).
-/

namespace JsonRules

/-! ## Positions -/

namespace Value

variable {rule : Value} {n : Nat}

/-- The same place one level further down. -/
def Position.deeper (p : Position) : Position := ⟨p.depth + 1, p.rule⟩

/-- In a rule that is itself one level further down, all places are. -/
theorem positions_succ (depth : Nat) (rule : Value) :
    rule.positions (depth + 1) = (rule.positions depth).map Position.deeper := by
  have hinner : ∀ inner ∈ rule.innerRules, inner.positions (depth + 1 + 1) =
      (inner.positions (depth + 1)).map Position.deeper := by
    intro inner h
    exact positions_succ (depth + 1) inner
  rw [positions_eq, positions_eq, List.map_cons, List.map_flatMap, List.flatMap_congr hinner]
  rfl
termination_by sizeOf rule
decreasing_by exact sizeOf_lt_of_mem_innerRules h

/-- A rule is one position, and the positions of the rules inside it are the others. -/
theorem positionCount_eq (rule : Value) :
    rule.positionCount = 1 + (rule.innerRules.map positionCount).sum := by
  have hinner : ∀ inner : Value, (inner.positions 2).length = inner.positionCount := by
    intro inner
    rw [positions_succ, List.length_map, positionCount]
  rw [positionCount, positions_eq, List.length_cons, List.length_flatMap,
    List.map_congr_left fun inner _ => hinner inner, Nat.add_comm]

theorem positionDepth_le_iff :
    rule.positionDepth ≤ n ↔ ∀ p ∈ rule.positions 1, p.depth ≤ n := by
  rw [positionDepth]
  induction rule.positions 1 with
  | nil => simp
  | cons p rest ih => rw [List.map_cons, List.foldr_cons, Nat.max_le, ih, List.forall_mem_cons]

/-- A rule is one level deeper than the rules inside it. -/
theorem positionDepth_le_succ_iff :
    rule.positionDepth ≤ n + 1 ↔ ∀ inner ∈ rule.innerRules, inner.positionDepth ≤ n := by
  have hinner : ∀ inner : Value,
      (∀ p ∈ inner.positions 2, p.depth ≤ n + 1) ↔ inner.positionDepth ≤ n := by
    intro inner
    rw [positions_succ, List.forall_mem_map, positionDepth_le_iff]
    simp [Position.deeper]
  rw [positionDepth_le_iff, forall_mem_positions_iff]
  simp [hinner]

theorem positionDepth_pos (rule : Value) : 0 < rule.positionDepth := by
  by_contra h
  have hle : rule.positionDepth ≤ 0 := by omega
  have hroot := positionDepth_le_iff.1 hle ⟨1, rule⟩ (by rw [positions_eq]; simp)
  simp at hroot

end Value

/-! ## Sizes of terms -/

namespace Term

theorem allSize_eq_sum (args : List Term) : allSize args = (args.map size).sum := by
  induction args with
  | nil => rfl
  | cons t rest ih => rw [allSize, ih, List.map_cons, List.sum_cons]

theorem size_eq (t : Term) : t.size = 1 + (t.subterms.map size).sum := by
  have hoption : ∀ default? : Option Term,
      optionSize default? = (default?.toList.map size).sum := by
    intro default?
    cases default? <;> simp [optionSize]
  cases t with
  | literal value => simp [size, subterms]
  | reference path default? => rw [size, subterms, hoption]
  | lookup key default? =>
    rw [size, subterms, hoption, List.map_cons, List.sum_cons]
    omega
  | call op args => rw [size, subterms, allSize_eq_sum]

theorem size_pos (t : Term) : 0 < t.size := by
  have := t.size_eq
  omega

theorem size_mkCall_le (op : Operator) (args : List Term) :
    (mkCall op args).size ≤ (call op args).size := by
  rcases mkCall_cases op args with ⟨-, e⟩ | ⟨c, values, -, -, e⟩
  · rw [e]
  · rw [e]
    exact size_pos _

theorem size_ofKey_le (key : Value) (default? : Option Term) :
    (ofKey key default?).size ≤ 1 + optionSize default? := by
  rcases ofKey_cases key default? with ⟨text, -, e⟩ | ⟨-, e⟩
  · rw [e, size]
  · cases default? with
    | none => simp [e, size]
    | some t => simp [e, optionSize]

theorem size_mkLookup_le (key : Term) (default? : Option Term) :
    (mkLookup key default?).size ≤ (lookup key default?).size := by
  rcases mkLookup_cases key default? with ⟨-, e⟩ | ⟨value, rfl, e⟩
  · rw [e]
  · have hkey := size_ofKey_le value default?
    rw [e, size]
    omega

/-- Folding makes nothing larger. -/
theorem size_fold_le (t : Term) : t.fold.size ≤ t.size := by
  have hoption : ∀ {default? : Option Term}, (∀ t ∈ default?, t.fold.size ≤ t.size) →
      optionSize (default?.map fold) ≤ optionSize default? := by
    intro default? ih
    cases default? with
    | none => exact Nat.le_refl 0
    | some t => exact ih t rfl
  induction t with
  | literal value => exact Nat.le_refl 1
  | reference path default? ih =>
    have hdefault := hoption ih
    rw [fold, optionFold_eq_map, size, size]
    omega
  | lookup key default? ihKey ih =>
    have hdefault := hoption ih
    have hstep := size_mkLookup_le key.fold (default?.map fold)
    rw [size] at hstep
    rw [fold, optionFold_eq_map, size]
    omega
  | call op args ih =>
    have hargs : allSize (args.map fold) ≤ allSize args := by
      rw [allSize_eq_sum, allSize_eq_sum, List.map_map]
      exact List.sum_le_sum ih
    have hstep := size_mkCall_le op (args.map fold)
    rw [size] at hstep
    rw [fold, allFold_eq_map, size]
    omega

theorem size_prepared_le (foldConstants : Bool) (t : Term) :
    (t.prepared foldConstants).size ≤ t.size := by
  unfold prepared
  split
  · exact t.size_fold_le
  · exact Nat.le_refl _

/-! ## Terms of rules -/

/-- The terms directly inside a term belong to the rules directly inside its rule, in order. -/
theorem OfForm.forall₂_subterms {R : Value → Term → Prop} {rule : Value} {t : Term}
    (h : OfForm R rule t) : List.Forall₂ R rule.innerRules t.subterms := by
  cases h with
  | literal hform =>
    rw [← Form.rules_eq_innerRules hform]
    exact .nil
  | reference hform hrel =>
    rw [← Form.rules_eq_innerRules hform]
    exact forall₂_toList hrel
  | lookup hform hkey hrel =>
    rw [← Form.rules_eq_innerRules hform]
    exact .cons hkey (forall₂_toList hrel)
  | call hform hargs =>
    rw [← Form.rules_eq_innerRules hform]
    exact hargs

variable {limit levels : Nat} {rule : Value} {t : Term}

theorem positionCount_eq_size (h : ofRuleWithin limit levels rule = .ok t) :
    rule.positionCount = t.size := by
  induction levels generalizing rule t with
  | zero => exact absurd h (by simp [ofRuleWithin])
  | succ levels ih =>
    have hinner := (ofRuleWithin_succ_iff.1 h).forall₂_subterms
    have hcounts : rule.innerRules.map Value.positionCount = t.subterms.map size :=
      list_map_eq_map (hinner.imp fun _ _ => ih)
    rw [Value.positionCount_eq, size_eq, hcounts]

theorem positionDepth_eq_depth (h : ofRuleWithin limit levels rule = .ok t) :
    rule.positionDepth = t.depth := by
  induction levels generalizing rule t with
  | zero => exact absurd h (by simp [ofRuleWithin])
  | succ levels ih =>
    have hinner := (ofRuleWithin_succ_iff.1 h).forall₂_subterms
    have hiff : ∀ n, List.Forall₂ (fun inner s => inner.positionDepth ≤ n ↔ s.depth ≤ n)
        rule.innerRules t.subterms := by
      intro n
      exact hinner.imp fun inner s hs => by rw [ih hs]
    -- Both are bounded by the same numbers, none of which is zero.
    refine eq_of_forall_ge_iff fun n => ?_
    cases n with
    | zero =>
      have hrule := rule.positionDepth_pos
      have ht := t.depth_pos
      omega
    | succ n =>
      rw [Value.positionDepth_le_succ_iff, depth_le_iff]
      exact forall_mem_iff_of_forall₂ (hiff n)

end Term

/-! ## Compiled rules -/

namespace Arena

mutual

/-- A term that is laid out adds a node for each of its subterms. -/
theorem size_nodes_place (arena : Arena) : (t : Term) →
    (arena.place t).1.nodes.size = arena.nodes.size + t.size
  | .literal value => Array.size_push ..
  | .reference path t? => by
    have hdefault := size_nodes_optionPlace arena t?
    simp only [place, add, Array.size_push, Term.size]
    omega
  | .lookup key t? => by
    have hkey := size_nodes_place arena key
    have hdefault := size_nodes_optionPlace (arena.place key).1 t?
    simp only [place, add, Array.size_push, Term.size]
    omega
  | .call op args => by
    have hargs := size_nodes_allPlace arena args
    simp only [place, addCall, Array.size_push, Term.size]
    omega

theorem size_nodes_optionPlace (arena : Arena) : (t? : Option Term) →
    (arena.optionPlace t?).1.nodes.size = arena.nodes.size + Term.optionSize t?
  | none => rfl
  | some t => size_nodes_place arena t

theorem size_nodes_allPlace (arena : Arena) : (terms : List Term) →
    (arena.allPlace terms).1.nodes.size = arena.nodes.size + Term.allSize terms
  | [] => rfl
  | t :: rest => by
    have hfirst := size_nodes_place arena t
    have hrest := size_nodes_allPlace (arena.place t).1 rest
    simp only [allPlace, Term.allSize]
    omega

end

mutual

/-- A term that is laid out adds fewer edges than it has subterms. -/
theorem size_edges_place (arena : Arena) : (t : Term) →
    (arena.place t).1.edges.size < arena.edges.size + t.size
  | .literal value => Nat.lt_succ_self _
  | .reference path t? => by
    have hdefault := size_edges_optionPlace arena t?
    simp only [place, add, Term.size]
    omega
  | .lookup key t? => by
    have hkey := size_edges_place arena key
    have hdefault := size_edges_optionPlace (arena.place key).1 t?
    simp only [place, add, Term.size]
    omega
  | .call op args => by
    have hargs := size_edges_allPlace arena args
    simp only [place, addCall, Array.size_append, List.size_toArray, Term.size]
    omega

theorem size_edges_optionPlace (arena : Arena) : (t? : Option Term) →
    (arena.optionPlace t?).1.edges.size ≤ arena.edges.size + Term.optionSize t?
  | none => Nat.le_refl _
  | some t => Nat.le_of_lt (size_edges_place arena t)

/-- Arguments that are laid out leave room for the edges to them. -/
theorem size_edges_allPlace (arena : Arena) : (terms : List Term) →
    (arena.allPlace terms).1.edges.size + (arena.allPlace terms).2.length ≤
      arena.edges.size + Term.allSize terms
  | [] => Nat.le_refl _
  | t :: rest => by
    have hfirst := size_edges_place arena t
    have hrest := size_edges_allPlace (arena.place t).1 rest
    simp only [allPlace, List.length_cons, Term.allSize]
    omega

end

end Arena

/-- A rule that is compiled into a draft adds no more nodes than it has positions, and fewer edges.
So a bound on the nodes and edges of an arena is never met by a rule with no more positions than
that, folded or not. -/
theorem Compilation.size_le_of_run {limit levels position : Nat} {foldConstants : Bool}
    {rule : Value} {draft draft' : Draft}
    (h : (compileWithin limit foldConstants levels rule).run draft = .ok (position, draft')) :
    draft'.arena.nodes.size ≤ draft.arena.nodes.size + rule.positionCount ∧
      draft'.arena.edges.size < draft.arena.edges.size + rule.positionCount := by
  rw [compileWithin_eq] at h
  cases hterm : Term.ofRuleWithin limit levels rule with
  | error e => exact absurd h (by simp [hterm, Except.map])
  | ok t =>
    rw [hterm] at h
    obtain rfl : (draft.place foldConstants t).2 = draft' := congrArg Prod.snd (Except.ok.inj h)
    have hcount : rule.positionCount = t.size := Term.positionCount_eq_size hterm
    have hsmaller := t.size_prepared_le foldConstants
    have hnodes := draft.arena.size_nodes_place (t.prepared foldConstants)
    have hedges := draft.arena.size_edges_place (t.prepared foldConstants)
    simp only [Draft.place, hcount]
    omega

theorem CompiledRule.nodeCount_ofTerm (t : Term) : (ofTerm t).nodeCount = t.size :=
  (Arena.size_nodes_place .empty t).trans (Nat.zero_add _)

namespace Engine

variable {engine : Engine} {rule : Value} {c : CompiledRule}

/-- A compiled rule has a node for every position of the rule and is as deep as the rule, if
constants are not folded. Otherwise it may be smaller, but something is always left. So it is never
deeper than the limit. -/
theorem extent_of_compile (h : engine.compile rule = .ok c) :
    (engine.foldConstants = false →
      c.nodeCount = rule.positionCount ∧ c.depth = rule.positionDepth) ∧
      (1 ≤ c.nodeCount ∧ c.nodeCount ≤ rule.positionCount) ∧
      (1 ≤ c.depth ∧ c.depth ≤ rule.positionDepth) ∧ c.depth ≤ engine.maxDepth := by
  obtain ⟨t, ht, rfl⟩ := compile_eq_ok_iff.1 h
  have hcount : rule.positionCount = t.size := Term.positionCount_eq_size ht
  have hdepth : rule.positionDepth = t.depth := Term.positionDepth_eq_depth ht
  have hsmaller := t.size_prepared_le engine.foldConstants
  have hshallower : (t.prepared engine.foldConstants).depth ≤ t.depth := t.depth_prepared_le
  have hlimit : t.depth ≤ engine.maxDepth := Term.depth_le_of_ofRuleWithin ht
  rw [CompiledRule.nodeCount_ofTerm, CompiledRule.depth_ofTerm, hcount, hdepth]
  refine ⟨fun hfold => ?_, ⟨Term.size_pos _, hsmaller⟩, ⟨Term.depth_pos _, hshallower⟩, ?_⟩
  · rw [hfold]
    exact ⟨rfl, rfl⟩
  · omega

/-- The term of `knownSum` as it is before folding. -/
def unfoldedSumTerm : Term :=
  .call (.eager (.calculation .add))
    [.lookup (.call (.eager (.calculation .cat))
        [.literal (.string "a"), .literal (.string ".b")]) none,
      .call (.eager (.calculation .multiply)) [.literal (.int 2), .literal (.int 3)]]

/-- Eight positions on four levels, of which three nodes on two levels are left. -/
theorem extent_of_compile_knownSum :
    (({ foldConstants := false } : Engine).compile knownSum = .ok (.ofTerm unfoldedSumTerm) ∧
        knownSum.positionCount = 8 ∧ knownSum.positionDepth = 4) ∧
      ({} : Engine).compile knownSum = .ok (.ofTerm knownSumTerm) ∧
      3 ≤ knownSum.positionCount ∧ 2 ≤ knownSum.positionDepth := by
  have hunfolded : ({ foldConstants := false } : Engine).compile knownSum =
      .ok (.ofTerm unfoldedSumTerm) := rfl
  obtain ⟨hexact, -⟩ := extent_of_compile hunfolded
  obtain ⟨hcount, hdepth⟩ := hexact rfl
  rw [CompiledRule.nodeCount_ofTerm] at hcount
  rw [CompiledRule.depth_ofTerm] at hdepth
  obtain ⟨-, ⟨-, hnodes⟩, ⟨-, hlevels⟩, -⟩ := extent_of_compile compile_knownSum
  rw [CompiledRule.nodeCount_ofTerm] at hnodes
  rw [CompiledRule.depth_ofTerm] at hlevels
  exact ⟨⟨hunfolded, hcount.symm, hdepth.symm⟩, compile_knownSum, hnodes, hlevels⟩

end Engine

end JsonRules
