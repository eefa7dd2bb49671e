import JsonRules.Proofs.Blob.Basic
import JsonRules.Rule.Grammar
import Mathlib.Logic.Relation

/-!
# Decompilation of restored rules

Bytes are accepted as a rule although nothing is asked of the values and segments in them, and not
all of these can be said in a raw rule: an object with a key reads as an invocation, a segment with
a dot in it as two segments, and a key that is `true` as a fault. So a restored rule need not be
decompiled faithfully (`CompiledRule.decompilation_unfaithful`). It is if every node that is reached
from the root is `Arena.Legible`; then the decompiled rule has, under the default settings, the
value that the restored rule has, for all data: `CompiledRule.apply_toRule_of_ofBytesWith`.
-/

namespace JsonRules

namespace Arena

/-! ## Nodes that are read as they are written -/

/-- A node is reached from another one by following references. -/
def Reaches (arena : Arena) : Nat → Nat → Prop := Relation.ReflTransGen arena.Refers

/-- The rule that is written for a node is read as a node that means the same: a literal stands for
itself in the place of a rule, a path is what its text is split to, and a literal in the place of a
key names a path or is an object. -/
inductive Legible (arena : Arena) : Node → Prop where
  | literal {value : Value} (h : Form.ofValue value = .ok .literal) :
      Legible arena (.literal value)
  | reference {path : Path} {default? : Option Nat} (h : Path.ofString path.toString = path) :
      Legible arena (.reference path default?)
  | lookup {key : Nat} {default? : Option Nat}
      (h : ∀ value, arena.nodes[key]? = some (.literal value) → value.IsKey) :
      Legible arena (.lookup key default?)
  | call {op : Operator} {args : Span} : Legible arena (.call op args)

/-- Every node that is reached from a position is legible. -/
def LegibleFrom (arena : Arena) (position : Nat) : Prop :=
  ∀ reached node, arena.Reaches position reached → arena.nodes[reached]? = some node →
    arena.Legible node

variable {arena : Arena} {position limit levels : Nat} {t : Term}

theorem LegibleFrom.legible {node : Node} (h : arena.LegibleFrom position)
    (hnode : arena.nodes[position]? = some node) : arena.Legible node :=
  h position node .refl hnode

theorem LegibleFrom.child {node : Node} {child : Nat} (h : arena.LegibleFrom position)
    (hnode : arena.nodes[position]? = some node) (hchild : child ∈ arena.children node) :
    arena.LegibleFrom child := by
  intro reached node' hreached hnode'
  exact h reached node' (.head ⟨node, hnode, hchild⟩ hreached) hnode'

/-! ## Rules of legible nodes -/

/-- A rule is read as a term that means what another term does. -/
def ReadsAs (limit levels : Nat) (rule : Value) (t : Term) : Prop :=
  ∃ t', Term.ofRuleWithin limit levels rule = .ok t' ∧ t'.meaning = t.meaning

theorem exists_option_of_readsAs {t? : Option Term}
    (h : ∀ t ∈ t?, ReadsAs limit levels t.toRule t) :
    ∃ t'? : Option Term,
      Option.Rel (fun rule t' => Term.ofRuleWithin limit levels rule = .ok t')
        (t?.map Term.toRule) t'? ∧ t'?.map Term.meaning = t?.map Term.meaning := by
  cases t? with
  | none => exact ⟨none, .none, rfl⟩
  | some t =>
    obtain ⟨t', ht', hmeaning⟩ := h t rfl
    exact ⟨some t', .some ht', congrArg some hmeaning⟩

theorem exists_list_of_readsAs {terms : List Term}
    (h : ∀ t ∈ terms, ReadsAs limit levels t.toRule t) :
    ∃ terms' : List Term,
      List.Forall₂ (fun rule t' => Term.ofRuleWithin limit levels rule = .ok t')
        (terms.map Term.toRule) terms' ∧ terms'.map Term.meaning = terms.map Term.meaning := by
  induction terms with
  | nil => exact ⟨[], .nil, rfl⟩
  | cons t rest ih =>
    obtain ⟨t', ht', hmeaning⟩ := h t List.mem_cons_self
    obtain ⟨rest', hrest', hmeanings⟩ := ih fun s hs => h s (List.mem_cons_of_mem _ hs)
    refine ⟨t' :: rest', .cons ht' hrest', ?_⟩
    rw [List.map_cons, List.map_cons, hmeaning, hmeanings]

/-- A variable means the same with a key and a default that mean the same. -/
theorem meaning_lookup_congr {key key' : Term} {t? t'? : Option Term}
    (hkey : key'.meaning = key.meaning) (hdefault : t'?.map Term.meaning = t?.map Term.meaning) :
    (Term.lookup key' t'?).meaning = (Term.lookup key t?).meaning := by
  funext data
  rw [Term.meaning, Term.meaning, Term.optionMeaning_eq_map, Term.optionMeaning_eq_map, hkey,
    hdefault]

namespace ReadsAs

variable {t? : Option Term} (hdefault : ∀ s ∈ t?, ReadsAs limit levels s.toRule s)

include hdefault in
theorem reference {path : Path} (hpath : Path.ofString path.toString = path) :
    ReadsAs limit (levels + 1) (Term.reference path t?).toRule (.reference path t?) := by
  obtain ⟨t'?, ht', hmeaning⟩ := exists_option_of_readsAs hdefault
  refine ⟨.reference path t'?, Term.ofRuleWithin_succ_iff.2 ?_, ?_⟩
  · rw [Term.toRule, Term.optionToRule_eq_map]
    exact .of_path hpath ht'
  · funext data
    rw [Term.meaning, Term.meaning, Term.optionMeaning_eq_map, Term.optionMeaning_eq_map, hmeaning]

include hdefault in
/-- A variable whose key is an object is read as a variable with a computed key. -/
theorem lookup {key : Term} (hobject : ∃ members, key.toRule = .object members)
    (hkey : ReadsAs limit levels key.toRule key) :
    ReadsAs limit (levels + 1) (Term.lookup key t?).toRule (.lookup key t?) := by
  obtain ⟨t'?, ht', hmeaning⟩ := exists_option_of_readsAs hdefault
  obtain ⟨members, hmembers⟩ := hobject
  obtain ⟨key', hkey', hkeyMeaning⟩ := hkey
  refine ⟨.lookup key' t'?, Term.ofRuleWithin_succ_iff.2 ?_,
    meaning_lookup_congr hkeyMeaning hmeaning⟩
  rw [Term.toRule, Term.optionToRule_eq_map]
  exact .lookup (Form.ofValue_variableRule (by rw [hmembers, Form.keyOf]) _) hkey' ht'

include hdefault in
/-- A variable whose key is a literal that names a path is read as a variable with that path. -/
theorem lookup_literal {value : Value} {text : String} (htext : value.pathText? = some text)
    (hkey : Form.keyOf value = .ok (.path text)) :
    ReadsAs limit (levels + 1) (Term.lookup (.literal value) t?).toRule
      (.lookup (.literal value) t?) := by
  obtain ⟨t'?, ht', hmeaning⟩ := exists_option_of_readsAs hdefault
  refine ⟨.reference (.ofString text) t'?, Term.ofRuleWithin_succ_iff.2 ?_, ?_⟩
  · rw [Term.toRule, Term.optionToRule_eq_map]
    exact .reference (Form.ofValue_variableRule hkey _) ht'
  · have hof : Term.ofKey value t'? = .reference (.ofString text) t'? := by
      rw [Term.ofKey, htext]
    rw [← hof, ← meaning_lookup_congr rfl hmeaning]
    exact funext fun data => Term.meaning_ofKey value t'? data

theorem call (op : Operator) {args : List Term}
    (hargs : ∀ s ∈ args, ReadsAs limit levels s.toRule s) :
    ReadsAs limit (levels + 1) (Term.call op args).toRule (.call op args) := by
  obtain ⟨args', hargs', hmeaning⟩ := exists_list_of_readsAs hargs
  refine ⟨.call op args', Term.ofRuleWithin_succ_iff.2 ?_, ?_⟩
  · rw [Term.toRule, Term.allToRule_eq_map]
    exact .call (Form.ofValue_call op _) hargs'
  · funext data
    rw [Term.meaning, Term.meaning, Term.allMeaning_eq_map, Term.allMeaning_eq_map, hmeaning]

end ReadsAs

/-- The rule of a key is read as a key: it is an object, or it is a literal that names a path. -/
theorem Represents.key_cases {child : Nat} {key : Term} (h : arena.Represents child key)
    (hkey : ∀ value, arena.nodes[child]? = some (.literal value) → value.IsKey) :
    (∃ members, key.toRule = .object members) ∨
      ∃ value text, key = .literal value ∧ value.pathText? = some text ∧
        Form.keyOf value = .ok (.path text) := by
  cases h with
  | @literal _ value h =>
    cases hkey value h with
    | null => exact .inr ⟨_, _, rfl, rfl, rfl⟩
    | int n => exact .inr ⟨_, _, rfl, rfl, rfl⟩
    | string s => exact .inr ⟨_, _, rfl, rfl, rfl⟩
    | object members => exact .inl ⟨members, rfl⟩
  | _ => exact .inl (Term.toRule_eq_object rfl)

/-- What is written for a node all of whose nodes are legible is read again. A key that is a literal
becomes the path that it names, so the term need not be the same, but it means the same. -/
theorem Represents.readsAs (h : arena.Represents position t) (hlevels : t.depth ≤ levels)
    (hlegible : arena.LegibleFrom position) : ReadsAs limit levels t.toRule t := by
  -- by induction on the levels, since the nodes that are referred to are legible as well
  induction levels generalizing position t with
  | zero => exact absurd hlevels (Nat.not_le.2 t.depth_pos)
  | succ levels ih =>
    have hdefault : ∀ {node : Node} {default? : Option Nat} {t? : Option Term},
        arena.nodes[position]? = some node → (∀ child ∈ default?, child ∈ arena.children node) →
        Option.Rel arena.Represents default? t? → (∀ s ∈ t?, s.depth ≤ levels) →
        ∀ s ∈ t?, ReadsAs limit levels s.toRule s := by
      intro node default? t? hnode hchildren hrel hdepth s hs
      cases hrel with
      | none => exact absurd hs (Option.not_mem_none s)
      | some hchild =>
        obtain rfl := Option.mem_some_iff.1 hs
        exact ih hchild (hdepth _ rfl) (hlegible.child hnode (hchildren _ rfl))
    cases h with
    | literal h =>
      cases hlegible.legible h with
      | literal hform => exact ⟨_, Term.ofRuleWithin_succ_iff.2 (.literal hform), rfl⟩
    | reference h hrel =>
      rw [Term.depth, Nat.add_le_add_iff_right, Term.optionDepth_le_iff] at hlevels
      have hreads := hdefault h (fun child hc => Option.mem_toList.2 hc) hrel hlevels
      cases hlegible.legible h with
      | reference hpath => exact .reference hreads hpath
    | lookup h hkey hrel =>
      rw [Term.depth, Nat.add_le_add_iff_right, Nat.max_le, Term.optionDepth_le_iff] at hlevels
      have hreads := hdefault h
        (fun child hc => List.mem_cons_of_mem _ (Option.mem_toList.2 hc)) hrel hlevels.2
      cases hlegible.legible h with
      | lookup hliteral =>
        rcases hkey.key_cases hliteral with hobject | ⟨value, text, rfl, htext, hkeyOf⟩
        · exact .lookup hreads hobject
            (ih hkey hlevels.1 (hlegible.child h List.mem_cons_self))
        · exact .lookup_literal hreads htext hkeyOf
    | @call _ op span args h hspan hargs =>
      rw [Term.depth, Nat.add_le_add_iff_right, Term.allDepth_le_iff] at hlevels
      refine .call op fun s hs => ?_
      obtain ⟨child, hmem, hchild⟩ := exists_mem_left_of_forall₂ hargs hs
      exact ih hchild (hlevels s hs) (hlegible.child h hmem)

end Arena

namespace CompiledRule

variable {digest : List UInt8 → Digest} {bytes : List UInt8} {c : CompiledRule}

/-- A rule that was restored from bytes is decompiled to a raw rule with the same value and the same
log for all data, if every node that is reached from its root is legible. -/
theorem apply_toRule_of_ofBytesWith (h : ofBytesWith digest bytes = .ok c)
    (hlegible : c.arena.LegibleFrom c.root) (data : Value) :
    ({} : Engine).apply c.toRule data = .ok (c.apply data) ∧
      (({} : Engine).run c.toRule data).log = (c.run data).log := by
  obtain ⟨body, p, rest, -, -, hvalidate⟩ := ofBytesWith_eq_ok_iff.1 h
  obtain ⟨-, hreliable, hdepth⟩ := Payload.eq_ofRule_of_validate hvalidate
  obtain ⟨t, ht, htdepth⟩ := hreliable.exists_represents
  have hrule : c.toRule = t.toRule := ht.ruleWithin_eq (Nat.le_of_eq htdepth)
  have hrun : c.run data = t.meaning data := ht.evaluateWithin_eq (Nat.le_of_eq htdepth) data
  have hreads : Arena.ReadsAs defaultMaxDepth defaultMaxDepth t.toRule t :=
    ht.readsAs (Nat.le_trans (Nat.le_of_eq htdepth) hdepth) hlegible
  obtain ⟨t', ht', hmeaning⟩ := hreads
  have heval : ({} : Engine).run c.toRule data = Except.ok <$> c.run data := by
    rw [Engine.run, evaluate, hrule, hrun, Term.evaluateWithin_eq_meaning ht', hmeaning]
    rfl
  rw [Engine.apply, heval]
  exact ⟨rfl, List.append_nil _⟩

theorem legibleFrom_sharedSum : sharedSum.arena.LegibleFrom sharedSum.root := by
  intro reached node _ hnode
  match reached with
  | 0 => exact Option.some.inj hnode ▸ .literal rfl
  | 1 => exact Option.some.inj hnode ▸ .call
  | 2 => exact Option.some.inj hnode ▸ .literal rfl
  | reached + 3 => exact absurd hnode (by simp [sharedSum])

theorem apply_toRule_of_ofBytesWith_sharedSum :
    ofBytesWith (fun _ => Vector.replicate 32 7) sharedSumBytes = .ok sharedSum ∧
      sharedSum.arena.LegibleFrom sharedSum.root ∧
      ({} : Engine).apply sharedSum.toRule .null = .ok (sharedSum.apply .null) :=
  ⟨ofBytesWith_sharedSumBytes, legibleFrom_sharedSum,
    (apply_toRule_of_ofBytesWith ofBytesWith_sharedSumBytes legibleFrom_sharedSum .null).1⟩

/-! ## Nodes that are not -/

/-- A rule whose only node is an object that reads as the call of an operator. -/
def disguised : CompiledRule where
  arena := ⟨#[.literal (.singleton "a" (.int 1))], #[]⟩
  root := 0
  depth := 1

/-- What is in the frame of the blob of `disguised`. -/
def disguisedPayload : List UInt8 := [1, 0, 1, 0, 1, 0, 6, 1, 1, 97, 2, 2, 0, 0]

/-- The blob of `disguised`. -/
def disguisedBytes : List UInt8 :=
  [84, 83, 82, 65, 1, 0, 1, 0, 0, 0, 0, 0, 14, 0, 0, 0,
    118, 66, 230, 38, 237, 68, 4, 26, 167, 226, 62, 165, 50, 175, 155, 118] ++ disguisedPayload

theorem checksum_disguisedPayload :
    Frame.checksum Blake3.hash disguisedPayload = Frame.fieldAt disguisedBytes 16 16 := by
  decide +kernel

theorem ofBytes_disguisedBytes : ofBytes disguisedBytes = .ok disguised := by
  refine ofBytesWith_eq_ok_iff.2 ⟨disguisedPayload, _, [], ?_, rfl, rfl⟩
  have hbody : ((disguisedBytes.drop Frame.headerLength).take
      (Wire.ofLittleEndian (Frame.fieldAt disguisedBytes 12 4))) = disguisedPayload := rfl
  have hchecksum := checksum_disguisedPayload
  simp only [Frame.payload, hbody, hchecksum]
  rfl

/-- Not every rule that is restored from bytes is decompiled to a raw rule with the same value: that
of `disguised` is rejected. -/
theorem decompilation_unfaithful :
    ¬ ∀ bytes c, ofBytes bytes = .ok c → ∀ data,
      ({} : Engine).apply c.toRule data = .ok (c.apply data) := by
  intro h
  have hrejected : ({} : Engine).apply disguised.toRule .null = .error (.unknownOperator "a") := rfl
  have haccepted := h _ _ ofBytes_disguisedBytes .null
  rw [hrejected] at haccepted
  exact absurd haccepted (by simp)

end CompiledRule

end JsonRules
