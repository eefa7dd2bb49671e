import JsonRules.Blob.Basic
import JsonRules.Proofs.Blob.Frame
import JsonRules.Proofs.Blob.Payload
import JsonRules.Proofs.Blob.Validation
import JsonRules.Proofs.Compilation

/-!
# Blobs and compiled rules

Compiled rules come from engines and from blobs (`CompiledRule.Obtainable`). All of them can be
relied on, and all of them can be stored as long as their payload is shorter than `2 ^ 32` bytes,
because their positions are then small enough for the fields that they are written to. Main
statements:

* a compiled rule that is stored in a blob is restored as it was, unless it is deeper than rules may
  be by default, which is what the blob is then refused for (`ofBytesWith_toBytesWith`);
* a rule that was restored from bytes, whatever they are, can be read from its root with as many
  levels as its depth, and no reference in it leads astray (`readable_of_ofBytesWith`).
-/

namespace JsonRules

namespace CompiledRule

/-- A compiled rule that an engine has compiled or that was restored from bytes. -/
inductive Obtainable : CompiledRule → Prop where
  /-- A rule that was compiled under any settings, the members of its objects being in order. -/
  | compiled {engine : Engine} {rule : Value} {c : CompiledRule} (hrule : rule.WellFormed)
      (h : engine.compile rule = .ok c) : Obtainable c
  /-- A rule that was restored from any bytes, secured by any digest. -/
  | restored {digest : List UInt8 → Digest} {bytes : List UInt8} {c : CompiledRule}
      (h : ofBytesWith digest bytes = .ok c) : Obtainable c

variable {digest : List UInt8 → Digest} {bytes : List UInt8} {c : CompiledRule}

/-! ## Sizes -/

theorem size_nodes_le (c : CompiledRule) (source? : Option Digest) :
    c.arena.nodes.size ≤ (Payload.ofRule c source?).write.length := by
  have h := Payload.length_nodes_le (Payload.ofRule c source?)
  rwa [Payload.ofRule, List.length_map, Array.length_toList] at h

theorem size_edges_le (c : CompiledRule) (source? : Option Digest) :
    c.arena.edges.size ≤ (Payload.ofRule c source?).write.length :=
  Payload.length_edges_le (Payload.ofRule c source?)

/-! ## Restored rules -/

/-- Bytes are accepted as a rule if the payload in their frame is read and is accepted. -/
theorem ofBytesWith_eq_ok_iff :
    ofBytesWith digest bytes = .ok c ↔
      ∃ body p rest, Frame.payload digest bytes = .ok body ∧ Payload.read body = some (p, rest) ∧
        p.validate = .ok c := by
  unfold ofBytesWith
  cases hframe : Frame.payload digest bytes with
  | error damage => simp
  | ok body =>
    cases hread : Payload.read body with
    | none =>
      have hnone : Payload.read.run body = none := hread
      simp [hnone, hread]
    | some result =>
      have hsome : Payload.read.run body = some result := hread
      obtain ⟨p, rest⟩ := result
      cases hvalidate : p.validate with
      | error defect => simp [hsome, hread, hvalidate, Except.mapError]
      | ok rule => simp [hsome, hread, hvalidate, Except.mapError]

/-- The payload of a rule that was restored can be stored again. -/
theorem storable_of_ofBytesWith (h : ofBytesWith digest bytes = .ok c)
    (source? : Option Digest) : (Payload.ofRule c source?).Storable := by
  obtain ⟨body, p, rest, -, hread, hvalidate⟩ := ofBytesWith_eq_ok_iff.1 h
  have hstorable := Payload.yields_payload body p rest hread
  rw [(Payload.eq_ofRule_of_validate hvalidate).1] at hstorable
  exact ⟨hstorable.node, hstorable.edge, hstorable.root⟩

/-! ## Compiled rules -/

theorem reliable_ofTerm (t : Term) : (ofTerm t).Reliable :=
  ⟨descending_ofTerm t, (represents_ofTerm t).position_lt, rfl⟩

/-- The payload of a rule in a sound arena can be stored if there are not too many nodes and edges
for the fields of positions. -/
theorem storable_of_sound (h : c.arena.Sound Value.WellFormed) (hroot : c.root < c.arena.nodes.size)
    (hnodes : c.arena.nodes.size < 2 ^ (8 * Wire.positionWidth))
    (hedges : c.arena.edges.size < 2 ^ (8 * Wire.positionWidth)) (source? : Option Digest) :
    (Payload.ofRule c source?).Storable := by
  have hfits : ∀ {child : Nat}, child < c.arena.nodes.size → FitsPosition child :=
    fun hlt => Nat.lt_trans hlt hnodes
  refine ⟨fun stored hstored => ?_, fun child hchild => hfits (h.edge_lt child hchild), hfits hroot⟩
  obtain ⟨node, hmem, rfl⟩ := List.mem_map.1 hstored
  obtain ⟨position, hposition⟩ := List.getElem?_of_mem hmem
  rw [Array.getElem?_toList] at hposition
  obtain ⟨hlt, -⟩ := Array.getElem?_eq_some_iff.1 hposition
  have hchild : ∀ child ∈ c.arena.children node, FitsPosition child := fun child hc =>
    hfits (Nat.lt_trans (h.descending.child_lt hposition child hc) hlt)
  cases node with
  | literal value => exact h.literal hposition
  | reference path default? => exact fun child hc => hchild child (Option.mem_toList.2 hc)
  | lookup key default? =>
    exact ⟨hchild key List.mem_cons_self,
      fun child hc => hchild child (List.mem_cons_of_mem _ (Option.mem_toList.2 hc))⟩
  | call op args =>
    have hspan := Nat.lt_of_le_of_lt (h.descending.span_le hposition) hedges
    exact ⟨Nat.lt_of_le_of_lt (Nat.le_add_right _ _) hspan,
      Nat.lt_of_le_of_lt (Nat.le_add_left _ _) hspan⟩

theorem Obtainable.reliable (h : c.Obtainable) : c.Reliable := by
  cases h with
  | compiled hrule h =>
    obtain ⟨t, -, rfl⟩ := Engine.compile_eq_ok_iff.1 h
    exact reliable_ofTerm _
  | restored h =>
    obtain ⟨body, p, rest, -, -, hvalidate⟩ := ofBytesWith_eq_ok_iff.1 h
    exact (Payload.eq_ofRule_of_validate hvalidate).2.1

theorem Obtainable.storable (h : c.Obtainable) {source? : Option Digest}
    (hlength : (Payload.ofRule c source?).write.length < 2 ^ 32) :
    (Payload.ofRule c source?).Storable := by
  cases h with
  | compiled hrule h =>
    obtain ⟨t, ht, rfl⟩ := Engine.compile_eq_ok_iff.1 h
    have hwellFormed := Value.compositional_wellFormed
    have hliterals := Term.literalsIn_of_ofRuleWithin hwellFormed.toHereditary ht hrule
    exact storable_of_sound (sound_ofTerm (hliterals.prepared hwellFormed))
      (represents_ofTerm _).position_lt (Nat.lt_of_le_of_lt (size_nodes_le _ _) hlength)
      (Nat.lt_of_le_of_lt (size_edges_le _ _) hlength) source?
  | restored h => exact storable_of_ofBytesWith h source?

/-! ## Reading rules that can be relied on -/

theorem Reliable.isGreatest_depth (h : c.Reliable) :
    IsGreatest (c.arena.pathLengths c.root) c.depth :=
  h.depth_eq ▸ h.descending.isGreatest_depthAt h.root_lt

/-- The term that the root of a rule stands for has the depth of the rule. -/
theorem Reliable.exists_represents (h : c.Reliable) :
    ∃ t, c.arena.Represents c.root t ∧ t.depth = c.depth := by
  obtain ⟨t, ht⟩ := h.descending.exists_represents h.root_lt
  exact ⟨t, ht, (ht.depthAt_eq h.descending).symm.trans h.depth_eq⟩

theorem Reliable.evaluateChecked_eq (h : c.Reliable) (data : Value) :
    c.arena.evaluateChecked c.depth c.root data = monadLift (c.run data) := by
  obtain ⟨t, ht, hdepth⟩ := h.exists_represents
  rw [run, ht.evaluateChecked_eq (Nat.le_of_eq hdepth), ht.evaluateWithin_eq (Nat.le_of_eq hdepth)]

theorem Reliable.ruleChecked_eq (h : c.Reliable) :
    c.arena.ruleChecked c.depth c.root = .ok c.toRule := by
  obtain ⟨t, ht, hdepth⟩ := h.exists_represents
  rw [toRule, ht.ruleChecked_eq (Nat.le_of_eq hdepth), ht.ruleWithin_eq (Nat.le_of_eq hdepth)]

theorem exists_name_of_call_mem {source? : Option Digest} {name : String} {args : Span}
    (h : .call name args ∈ (Payload.ofRule c source?).nodes) : ∃ op : Operator, op.name = name := by
  obtain ⟨node, -, e⟩ := List.mem_map.1 h
  cases node with
  | call op _ => exact ⟨op, (StoredNode.call.inj e).1⟩
  | _ => exact absurd e (by simp [StoredNode.ofNode])

/-! ## Blobs -/

/-- What is stored of a rule that can be relied on is read back, if it can be stored and is short
enough for its length to be written. -/
theorem Reliable.read_write (h : c.Reliable) {source? : Option Digest}
    (hstorable : (Payload.ofRule c source?).Storable)
    (hlength : (Payload.ofRule c source?).write.length < 2 ^ 32) :
    Payload.read (Payload.ofRule c source?).write = some (Payload.ofRule c source?, []) := by
  have hcount : ∀ n, n < 2 ^ 32 → n < 2 ^ (8 * Wire.countWidth) := fun n hn =>
    Nat.lt_trans hn (by decide)
  have hnodes : c.arena.nodes.size < 2 ^ 32 := Nat.lt_of_le_of_lt (size_nodes_le c source?) hlength
  have hedges : c.arena.edges.size < 2 ^ 32 := Nat.lt_of_le_of_lt (size_edges_le c source?) hlength
  have hdepth : c.depth < 2 ^ 32 := by
    -- children come before their parents, so there are no more levels than nodes up to the root
    obtain ⟨t, ht, hdepth⟩ := h.exists_represents
    have hle : t.depth ≤ c.root + 1 := ht.depth_le h.descending
    have hroot := h.root_lt
    omega
  have hread := Payload.restores_payload hstorable (hcount _ hnodes) (hcount _ hedges)
    (hcount _ hdepth) (hcount _ hlength) []
  rwa [List.append_nil] at hread

/-! ## Main results -/

/-- A compiled rule that is stored in a blob, with or without the digest of a source, is restored as
it was: the same nodes, edges, root and depth. A rule that is too deep is refused, for that reason.
-/
theorem ofBytesWith_toBytesWith (digest : List UInt8 → Digest) (h : c.Obtainable)
    (source? : Option String)
    (hlength : (Payload.ofRule c
      (source?.map fun source => digest source.toUTF8.toList)).write.length < 2 ^ 32) :
    ofBytesWith digest (c.toBytesWith digest source?) =
      if c.depth ≤ defaultMaxDepth then .ok c
      else .error (.invalid (.tooDeep c.depth defaultMaxDepth)) := by
  have hread : Payload.read.run _ = _ := h.reliable.read_write (h.storable hlength) hlength
  have hvalidate := Payload.validate_ofRule h.reliable
    (source?.map fun source => digest source.toUTF8.toList)
  simp only [ofBytesWith, toBytesWith, Frame.payload_close digest hlength, hread, hvalidate]
  split
  · rfl
  · rfl

theorem ofBytesWith_toBytesWith_knownSum :
    (ofTerm Engine.knownSumTerm).Obtainable ∧
      ofBytesWith (fun _ => Vector.replicate 32 7)
        ((ofTerm Engine.knownSumTerm).toBytesWith (fun _ => Vector.replicate 32 7) (some "+")) =
        .ok (ofTerm Engine.knownSumTerm) := by
  have h : (ofTerm Engine.knownSumTerm).Obtainable :=
    .compiled Engine.wellFormed_knownSum Engine.compile_knownSum
  exact ⟨h, ofBytesWith_toBytesWith _ h (some "+") (by decide +kernel)⟩

/-- Whatever bytes a rule was restored from, it can be read with nothing taken for granted:

* its payload says nothing but what the rule is, and names only operators that there are;
* its root is a node, calls refer only to edges that there are and nodes only to nodes before them;
* its depth is the number of nodes on the longest path from the root, and no more than allowed;
* from the root, with as many levels as the depth, evaluation and decompilation find every node and
  every edge that they look for, and what would be stored of the rule is accepted again. -/
theorem readable_of_ofBytesWith (h : ofBytesWith digest bytes = .ok c) :
    (∃ body p rest, Frame.payload digest bytes = .ok body ∧ Payload.read body = some (p, rest) ∧
      p = Payload.ofRule c p.metadata.source? ∧
      ∀ name args, StoredNode.call name args ∈ p.nodes → ∃ op, Operator.lookup? name = some op) ∧
    c.root < c.arena.nodes.size ∧
    (∀ (position : Nat) (op : Operator) (args : Span),
      c.arena.nodes[position]? = some (.call op args) →
        args.start + args.length ≤ c.arena.edges.size) ∧
    (∀ (position : Nat) (node : Node), c.arena.nodes[position]? = some node →
      ∀ child ∈ c.arena.children node, child < position) ∧
    IsGreatest (c.arena.pathLengths c.root) c.depth ∧ c.depth ≤ defaultMaxDepth ∧
    (∀ data, c.arena.evaluateChecked c.depth c.root data = monadLift (c.run data)) ∧
    c.arena.ruleChecked c.depth c.root = .ok c.toRule ∧
    ∀ source?, (Payload.ofRule c source?).validate = .ok c := by
  obtain ⟨body, p, rest, hframe, hread, hvalidate⟩ := ofBytesWith_eq_ok_iff.1 h
  obtain ⟨hp, hreliable, hdepth⟩ := Payload.eq_ofRule_of_validate hvalidate
  refine ⟨⟨body, p, rest, hframe, hread, hp, fun name args hmem => ?_⟩, hreliable.root_lt,
    fun _ _ _ => hreliable.descending.span_le, fun _ _ => hreliable.descending.child_lt,
    hreliable.isGreatest_depth, hdepth, hreliable.evaluateChecked_eq, hreliable.ruleChecked_eq,
    fun source? => ?_⟩
  · rw [hp] at hmem
    obtain ⟨op, rfl⟩ := exists_name_of_call_mem hmem
    exact ⟨op, Operator.lookup?_name op⟩
  · rw [Payload.validate_ofRule hreliable, if_pos hdepth]

/-- A sum of a node with itself, in an arena with a node and an edge that nothing refers to. -/
def sharedSum : CompiledRule where
  arena := ⟨#[.literal (.int 3), .call (.eager (.calculation .add)) ⟨1, 2⟩, .literal .null],
    #[7, 0, 0]⟩
  root := 1
  depth := 2

/-- The blob of `sharedSum` under the digest whose bytes are all seven. -/
def sharedSumBytes : List UInt8 :=
  [84, 83, 82, 65, 1, 0, 1, 0, 0, 0, 0, 0, 20, 0, 0, 0,
    7, 7, 7, 7, 7, 7, 7, 7, 7, 7, 7, 7, 7, 7, 7, 7,
    3, 3, 2, 0, 3, 0, 2, 6, 3, 1, 43, 1, 2, 0, 0, 3, 7, 0, 0, 1]

theorem ofBytesWith_sharedSumBytes :
    ofBytesWith (fun _ => Vector.replicate 32 7) sharedSumBytes = .ok sharedSum := rfl

theorem readable_of_ofBytesWith_sharedSum :
    ofBytesWith (fun _ => Vector.replicate 32 7) sharedSumBytes = .ok sharedSum ∧
      sharedSum.arena.evaluateChecked 2 1 .null = monadLift (sharedSum.run .null) := by
  obtain ⟨-, -, -, -, -, -, heval, -⟩ := readable_of_ofBytesWith ofBytesWith_sharedSumBytes
  exact ⟨ofBytesWith_sharedSumBytes, heval .null⟩

end CompiledRule

end JsonRules
