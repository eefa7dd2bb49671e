import JsonRules.Engine
import JsonRules.Proofs.Arena.Draft

/-!
# Compilation

A rule is compiled to what its term comes to, laid out in an arena (`Engine.compile_eq`). So all
that can be asked of a compiled rule is a matter of that term: it stands at the root, its depth is
the depth of the compiled rule, its meaning is what the compiled rule evaluates to, and its rule is
what the compiled rule is decompiled to. Main statements:

* a rule that can be compiled can be applied directly, with the value and the log that the compiled
  rule has, whether constants are folded or not (`Engine.apply_eq_of_compile`);
* compiling the decompiled rule gives the very same arena again (`Engine.compile_toRule`).
-/

namespace JsonRules

namespace CompiledRule

/-! ## The compiled rule of a term -/

/-- The compiled rule that a term is laid out as. -/
def ofTerm (term : Term) : CompiledRule :=
  let (arena, root) := Arena.empty.place term
  ofArena arena root

variable (t : Term)

theorem represents_ofTerm : (ofTerm t).arena.Represents (ofTerm t).root t :=
  (Arena.place_spec .empty t).2

variable {t} in
theorem sound_ofTerm {P : Value → Prop} (h : t.LiteralsIn P) : (ofTerm t).arena.Sound P :=
  Arena.Sound.empty.place h

theorem descending_ofTerm : (ofTerm t).arena.Descending :=
  (sound_ofTerm (t.literalsIn_of_forall (P := fun _ => True) fun _ => trivial)).descending

theorem depth_ofTerm : (ofTerm t).depth = t.depth :=
  (represents_ofTerm t).depthAt_eq (descending_ofTerm t)

theorem run_ofTerm (data : Value) : (ofTerm t).run data = t.meaning data :=
  (represents_ofTerm t).evaluateWithin_eq (Nat.le_of_eq (depth_ofTerm t).symm) data

theorem toRule_ofTerm : (ofTerm t).toRule = t.toRule :=
  (represents_ofTerm t).ruleWithin_eq (Nat.le_of_eq (depth_ofTerm t).symm)

end CompiledRule

namespace Engine

/-! ## The term that is laid out -/

variable {engine : Engine} {rule : Value} {c : CompiledRule}

/-- Compilation in one pass gives the term of the rule laid out, and the first fault of the rule if
it has no term. -/
theorem compile_eq (engine : Engine) (rule : Value) :
    engine.compile rule = (Term.ofRule engine.maxDepth rule).map fun t =>
      .ofTerm (t.prepared engine.foldConstants) := by
  rw [compile, draft, Compilation.compileWithin_eq, Term.ofRule]
  cases Term.ofRuleWithin engine.maxDepth engine.maxDepth rule with
  | error e => rfl
  | ok t => rfl

theorem compile_eq_ok_iff :
    engine.compile rule = .ok c ↔
      ∃ t, Term.ofRule engine.maxDepth rule = .ok t ∧
        .ofTerm (t.prepared engine.foldConstants) = c := by
  rw [compile_eq]
  cases Term.ofRule engine.maxDepth rule with
  | error e => exact ⟨fun h => absurd h (by simp [Except.map]), by simp⟩
  | ok t =>
    constructor
    · intro h
      exact ⟨t, rfl, Except.ok.inj h⟩
    · rintro ⟨_, ht, rfl⟩
      obtain rfl := Except.ok.inj ht
      rfl

/-- The sum of a variable with a computed key and a product, both known before there are data. -/
def knownSum : Value :=
  .singleton "+" (.array [.singleton "var" (.singleton "cat" (.array [.string "a", .string ".b"])),
    .singleton "*" (.array [.int 2, .int 3])])

/-- The term of `knownSum` after folding. -/
def knownSumTerm : Term :=
  .call (.eager (.calculation .add)) [.reference ⟨["a", "b"]⟩ none, .literal (.int 6)]

theorem wellFormed_knownSum : knownSum.WellFormed := by
  simp [knownSum, Value.singleton, Value.WellFormed, Value.AllWellFormed, Value.MembersWellFormed,
    Members.Sorted]

theorem compile_knownSum : ({} : Engine).compile knownSum = .ok (.ofTerm knownSumTerm) := rfl

/-- A choice by a bound that is a known sum, between a variable whose default is logged and one
whose known key names no path. -/
def guardedLog : Value :=
  .singleton "if" (.array [
    .singleton "<" (.array [.singleton "var" (.string "x"),
      .singleton "+" (.array [.int 1, .int 2])]),
    .singleton "var" (.array [.singleton "cat" (.singleton "var" (.string "k")),
      .singleton "log" (.int 1)]),
    .singleton "var" (.array [.singleton "!" (.bool true), .string "fallback"])])

/-- The term of `guardedLog` after folding. -/
def guardedLogTerm : Term :=
  .call (.control .ifElse) [
    .call (.eager (.calculation .less)) [.reference ⟨["x"]⟩ none, .literal (.int 3)],
    .lookup (.call (.eager (.calculation .cat)) [.reference ⟨["k"]⟩ none])
      (some (.call (.eager .log) [.literal (.int 1)])),
    .literal (.string "fallback")]

theorem compile_guardedLog : ({} : Engine).compile guardedLog = .ok (.ofTerm guardedLogTerm) :=
  compile_eq_ok_iff.2 ⟨_, rfl, rfl⟩

/-! ## Compiled rules -/

/-- A rule that can be compiled evaluates as the compiled rule does, and logs the same. -/
theorem run_eq_of_compile (h : engine.compile rule = .ok c) (data : Value) :
    engine.run rule data = Except.ok <$> c.run data := by
  obtain ⟨t, ht, rfl⟩ := compile_eq_ok_iff.1 h
  rw [CompiledRule.run_ofTerm, Term.meaning_prepared, run, evaluate,
    Term.evaluateWithin_eq_meaning ht]
  rfl

/-- A rule that can be compiled can be applied directly, with the same value, and it makes no
difference to the value whether constants are folded. -/
theorem apply_eq_of_compile (h : engine.compile rule = .ok c) :
    (∀ data, engine.apply rule data = .ok (c.apply data)) ∧
      ∀ fold, ∃ c', { engine with foldConstants := fold }.compile rule = .ok c' ∧
        ∀ data, c'.apply data = c.apply data := by
  refine ⟨fun data => congrArg Logged.value (run_eq_of_compile h data), fun fold => ?_⟩
  obtain ⟨t, ht, rfl⟩ := compile_eq_ok_iff.1 h
  refine ⟨_, compile_eq_ok_iff.2 ⟨t, ht, rfl⟩, fun data => congrArg Logged.value ?_⟩
  rw [CompiledRule.run_ofTerm, CompiledRule.run_ofTerm, Term.meaning_prepared,
    Term.meaning_prepared]

theorem apply_eq_of_compile_knownSum :
    ({} : Engine).compile knownSum = .ok (.ofTerm knownSumTerm) ∧
      ({} : Engine).apply knownSum (.singleton "a" (.singleton "b" (.int 1))) = .ok (.int 7) :=
  ⟨compile_knownSum, (apply_eq_of_compile compile_knownSum).1 _⟩

/-- Compiling what a compiled rule is decompiled to gives the same arena, node by node. -/
theorem compile_toRule (h : engine.compile rule = .ok c) : engine.compile c.toRule = .ok c := by
  obtain ⟨t, ht, rfl⟩ := compile_eq_ok_iff.1 h
  have hexpressible : (t.prepared engine.foldConstants).Expressible :=
    (Term.expressible_of_ofRuleWithin ht).prepared
  have hdepth : (t.prepared engine.foldConstants).depth ≤ engine.maxDepth :=
    Nat.le_trans t.depth_prepared_le (Term.depth_le_of_ofRuleWithin ht)
  rw [CompiledRule.toRule_ofTerm]
  refine compile_eq_ok_iff.2 ⟨_, Term.ofRuleWithin_toRule hexpressible hdepth, ?_⟩
  rw [Term.prepared_prepared]

theorem compile_toRule_knownSum :
    ({} : Engine).compile knownSum = .ok (.ofTerm knownSumTerm) ∧
      ({} : Engine).compile (CompiledRule.ofTerm knownSumTerm).toRule =
        .ok (.ofTerm knownSumTerm) :=
  ⟨compile_knownSum, compile_toRule compile_knownSum⟩

end Engine

end JsonRules
