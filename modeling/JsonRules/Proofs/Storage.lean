import JsonRules.Proofs.Compilation
import JsonRules.Proofs.Term.Nesting
import JsonRules.Proofs.Value.Textual
import JsonRules.Storage

/-!
# Rules kept as JSON text

A compiled rule is saved as the text of the rule that it is decompiled to. Loading that text gives
the compiled rule back, with the same arena, as long as the text can be read at all: the decompiled
rule has a list around the arguments of every call and may therefore be nested too deeply, although
the text that it was loaded from was not. Main statements:

* a rule that was loaded from text is loaded from its own text again, or refused for its nesting
  (`CompiledRule.ofJsonText_jsonText_toRule`);
* it is loaded again if the text that it was loaded from is nested at most half as deeply as texts
  may be (`CompiledRule.ofJsonText_jsonText_toRule_of_nesting_le`);
* some rules that were loaded from text are refused (`CompiledRule.reloading_unfaithful`).
-/

namespace JsonRules

/-- A node is the same as itself if its literal has no NaN in it. -/
theorem Node.same_self {node : Node} (h : ∀ value, node = .literal value → value.Textual) :
    node.same node = true := by
  cases node with
  | literal value => exact (h value rfl).same_self
  | reference path default? => simp [same]
  | lookup key default? => simp [same]
  | call op args => simp [same]

namespace CompiledRule

variable {c : CompiledRule} {text : String} {rule : Value} {t : Term}

theorem same_self (h : c.arena.Sound Value.Textual) : c.same c = true := by
  have hnode : ∀ node ∈ c.arena.nodes.toList, node.same node = true := by
    intro node hmem
    obtain ⟨position, hposition⟩ := List.mem_iff_getElem?.1 hmem
    rw [Array.getElem?_toList] at hposition
    refine Node.same_self fun value hvalue => ?_
    exact h.literal (hposition.trans (congrArg some hvalue))
  have hpair : ∀ pair ∈ c.arena.nodes.toList.zip c.arena.nodes.toList,
      pair.1.same pair.2 = true := by
    rw [List.zip, List.zipWith_self]
    exact List.forall_mem_map.2 hnode
  simp only [same, Bool.and_eq_true, List.all_eq_true, beq_self_eq_true, and_true, true_and]
  exact hpair

/-! ## Loading -/

theorem ofJsonText_eq_ok_iff :
    ofJsonText text = .ok c ↔
      ∃ rule, Value.ofJsonText? text = some rule ∧ ({} : Engine).compile rule = .ok c := by
  unfold ofJsonText
  cases Value.ofJsonText? text with
  | none => simp
  | some rule =>
    cases hcompile : ({} : Engine).compile rule with
    | error e => simp [hcompile, Except.mapError]
    | ok c' => simp [hcompile, Except.mapError]

/-- The text of a rule is compiled as the rule is, unless it is nested too deeply to be read. -/
theorem ofJsonText_jsonText (h : rule.Textual) :
    ofJsonText rule.jsonText =
      if rule.nesting ≤ Json.maxNesting then (({} : Engine).compile rule).mapError .rule
      else .error .notJson := by
  rw [ofJsonText, h.ofJsonText?_jsonText]
  by_cases hnesting : rule.nesting ≤ Json.maxNesting
  · rw [if_pos hnesting, if_pos hnesting]
  · rw [if_neg hnesting, if_neg hnesting]

/-! ## Loading what was saved -/

/-- What is laid out for a textual rule has textual literals. -/
theorem literalsIn_prepared {limit : Nat} {foldConstants : Bool} (hrule : rule.Textual)
    (ht : Term.ofRule limit rule = .ok t) :
    (t.prepared foldConstants).LiteralsIn Value.Textual := by
  have htextual := Value.compositional_textual
  exact (Term.literalsIn_of_ofRuleWithin htextual.toHereditary ht hrule).prepared htextual

/-- The text that the term of a textual rule is saved as is loaded as that term, unless it is nested
too deeply. -/
theorem ofJsonText_jsonText_ofTerm (hrule : rule.Textual)
    (ht : Term.ofRule defaultMaxDepth rule = .ok t) :
    ofJsonText (ofTerm (t.prepared true)).toRule.jsonText =
      if (ofTerm (t.prepared true)).toRule.nesting ≤ Json.maxNesting then
        .ok (ofTerm (t.prepared true))
      else .error .notJson := by
  have htextual : (t.prepared true).toRule.Textual :=
    (literalsIn_prepared hrule ht).toRule Value.compositional_textual
  have hcompile : ({} : Engine).compile (t.prepared true).toRule = .ok (ofTerm (t.prepared true)) :=
    Engine.compile_eq_ok_iff.2 ⟨_, Term.ofRule_toRule_prepared ht,
      congrArg ofTerm t.prepared_prepared⟩
  rw [toRule_ofTerm, ofJsonText_jsonText htextual, hcompile]
  rfl

/-- A rule that was loaded from text and saved as text is loaded again, node by node as it was, or
refused as no JSON if the saved text is nested too deeply. Compiled rules are compared by their
nodes, which makes the rule equal to itself because there is no NaN in it. -/
theorem ofJsonText_jsonText_toRule (h : ofJsonText text = .ok c) :
    c.same c = true ∧
      ofJsonText c.toRule.jsonText =
        if c.toRule.nesting ≤ Json.maxNesting then .ok c else .error .notJson := by
  obtain ⟨rule, htext, hcompile⟩ := ofJsonText_eq_ok_iff.1 h
  obtain ⟨t, ht, rfl⟩ := Engine.compile_eq_ok_iff.1 hcompile
  have hrule : rule.Textual := Value.textual_of_ofJsonText? htext
  exact ⟨same_self (sound_ofTerm (literalsIn_prepared hrule ht)),
    ofJsonText_jsonText_ofTerm hrule ht⟩

/-- A rule that was loaded from a text with at most half of the nesting that is allowed can be saved
as text and loaded again. -/
theorem ofJsonText_jsonText_toRule_of_nesting_le (htext : Value.ofJsonText? text = some rule)
    (hnesting : 2 * rule.nesting ≤ Json.maxNesting) (h : ofJsonText text = .ok c) :
    ofJsonText c.toRule.jsonText = .ok c := by
  obtain ⟨rule', htext', hcompile⟩ := ofJsonText_eq_ok_iff.1 h
  obtain rfl := Option.some.inj (htext.symm.trans htext')
  obtain ⟨t, ht, rfl⟩ := Engine.compile_eq_ok_iff.1 hcompile
  have hle : (ofTerm (t.prepared true)).toRule.nesting ≤ Json.maxNesting := by
    rw [toRule_ofTerm]
    exact Nat.le_trans (Term.nesting_toRule_prepared_le ht) hnesting
  exact (ofJsonText_jsonText_ofTerm (Value.textual_of_ofJsonText? htext) ht).trans (if_pos hle)

/-! ## Nested negations -/

/-- Negations of a variable, each without a list around its argument. -/
def negations : Nat → Value
  | 0 => .singleton "var" (.string "x")
  | n + 1 => .singleton "!" (negations n)

/-- The term of `negations`. -/
def negationsTerm : Nat → Term
  | 0 => .reference ⟨["x"]⟩ none
  | n + 1 => .call (.eager (.calculation .not)) [negationsTerm n]

theorem textual_negations (n : Nat) : (negations n).Textual := by
  induction n with
  | zero => exact Value.compositional_textual.singleton (.string "x")
  | succ n ih => exact Value.compositional_textual.singleton ih

theorem nesting_negations (n : Nat) : (negations n).nesting = n + 1 := by
  induction n with
  | zero => rfl
  | succ n ih =>
    rw [negations, Value.singleton, Value.nesting, Value.membersNesting, ih]
    rfl

theorem ofRuleWithin_negations {limit levels n : Nat} (h : n < levels) :
    Term.ofRuleWithin limit levels (negations n) = .ok (negationsTerm n) := by
  induction n generalizing levels with
  | zero =>
    obtain ⟨levels, rfl⟩ := Nat.exists_eq_succ_of_ne_zero (Nat.ne_of_gt h)
    exact Term.ofRuleWithin_succ_iff.2 (@Term.OfForm.reference _ _ "x" _ _ rfl .none)
  | succ n ih =>
    obtain ⟨levels, rfl⟩ := Nat.exists_eq_succ_of_ne_zero (Nat.ne_of_gt (Nat.zero_lt_of_lt h))
    have hform : Form.ofValue (negations (n + 1)) =
        .ok (.call (.eager (.calculation .not)) [negations n]) := by
      cases n <;> rfl
    exact Term.ofRuleWithin_succ_iff.2 (.call hform (.cons (ih (Nat.lt_of_succ_lt_succ h)) .nil))

/-- Negations of a variable are left as they are when constants are folded. -/
theorem folded_negationsTerm (n : Nat) : (negationsTerm n).Folded := by
  induction n with
  | zero => exact .reference fun t ht => absurd ht (Option.not_mem_none t)
  | succ n ih =>
    refine .call ?_ (List.forall_mem_singleton.2 ih)
    cases n <;> rfl

/-- With lists around their arguments the negations are nested about twice as deeply. -/
theorem nesting_toRule_negationsTerm (n : Nat) : (negationsTerm n).toRule.nesting = 2 * n + 1 := by
  induction n with
  | zero => rfl
  | succ n ih =>
    simp only [negationsTerm, Term.toRule, Term.allToRule, Value.singleton, Value.nesting,
      Value.membersNesting, Value.allNesting, ih]
    omega

theorem ofJsonText_negations {n : Nat} (h : n < Json.maxNesting) :
    ofJsonText (negations n).jsonText = .ok (ofTerm (negationsTerm n)) := by
  have hdepth : n < defaultMaxDepth := Nat.lt_trans h (by decide)
  have hcompile : ({} : Engine).compile (negations n) = .ok (ofTerm (negationsTerm n)) :=
    Engine.compile_eq_ok_iff.2 ⟨_, ofRuleWithin_negations hdepth,
      congrArg ofTerm (folded_negationsTerm n).fold_eq⟩
  have hnesting : (negations n).nesting ≤ Json.maxNesting := by
    rw [nesting_negations]
    exact h
  rw [ofJsonText_jsonText (textual_negations n), if_pos hnesting, hcompile]
  rfl

theorem ofJsonText_jsonText_toRule_negations :
    ofJsonText (negations 63).jsonText = .ok (ofTerm (negationsTerm 63)) ∧
      ofJsonText (ofTerm (negationsTerm 63)).toRule.jsonText = .ok (ofTerm (negationsTerm 63)) := by
  have hloaded := @ofJsonText_negations 63 (by decide)
  have hnesting : (ofTerm (negationsTerm 63)).toRule.nesting ≤ Json.maxNesting := by
    rw [toRule_ofTerm, nesting_toRule_negationsTerm]
    decide
  exact ⟨hloaded, (ofJsonText_jsonText_toRule hloaded).2.trans (if_pos hnesting)⟩

/-- Negations that are saved are refused from the 64th on, although twice as many can be loaded. -/
theorem ofJsonText_toRule_negations {n : Nat} (hlow : 64 ≤ n) (hhigh : n < defaultMaxDepth) :
    ofJsonText (ofTerm (negationsTerm n)).toRule.jsonText = .error .notJson := by
  have hprepared : (negationsTerm n).prepared true = negationsTerm n :=
    (folded_negationsTerm n).fold_eq
  have hreloaded := ofJsonText_jsonText_ofTerm (textual_negations n) (ofRuleWithin_negations hhigh)
  have hdeep : ¬ 2 * n + 1 ≤ Json.maxNesting := by
    rw [Json.maxNesting]
    omega
  rw [hprepared, toRule_ofTerm, nesting_toRule_negationsTerm, if_neg hdeep] at hreloaded
  rw [toRule_ofTerm, hreloaded]

/-- Not every rule that was loaded from text can be saved as text and loaded again. -/
theorem reloading_unfaithful :
    ¬ ∀ text c, ofJsonText text = .ok c →
      ∃ c', ofJsonText c.toRule.jsonText = .ok c' ∧ c'.same c = true := by
  intro h
  have hloaded := @ofJsonText_negations 64 (by decide)
  obtain ⟨c', hreloaded, -⟩ := h _ _ hloaded
  rw [ofJsonText_toRule_negations (Nat.le_refl 64) (by decide)] at hreloaded
  exact absurd hreloaded (by simp)

end CompiledRule

end JsonRules
