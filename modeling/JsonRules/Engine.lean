import JsonRules.Arena.Draft
import JsonRules.CompiledRule
import JsonRules.Context
import JsonRules.Rule.Evaluation

/-!
# Engines

An engine applies rules to data, directly or by compiling them first. It holds the two settings that
make a difference: how deeply rules may be nested, and whether constants are folded when a rule is
compiled.

The traced operations also report what happened on the way, in order: what was logged, that a rule
was compiled and that a rule was rejected.
-/

namespace JsonRules

/-- The depth of nesting allowed unless set otherwise. -/
def defaultMaxDepth : Nat := 256

/-- The settings under which rules are applied and compiled. -/
structure Engine where
  /-- How many rules may be inside one another. -/
  maxDepth : Nat := defaultMaxDepth
  /-- Whether constants are folded when a rule is compiled. -/
  foldConstants : Bool := true

/-- Something that happened while a rule was applied or compiled. -/
inductive Event where
  /-- The rule logged a value. -/
  | logged (value : Value)
  /-- The rule was compiled, with so many steps of folding. -/
  | compiled (nodes depth folded : Nat)
  /-- The rule was rejected. -/
  | rejected (error : RuleError)

/-- A result and what happened on the way to it. -/
structure Traced (α : Type) where
  /-- The result. -/
  result : α
  /-- What happened, first event first. -/
  events : List Event

namespace Engine

/-- The value of a rule for data, and what it logs. -/
def run (engine : Engine) (rule data : Value) : Logged (Except RuleError Value) :=
  evaluate engine.maxDepth rule data

/-- The value of a rule for data. -/
def apply (engine : Engine) (rule data : Value) : Except RuleError Value :=
  (engine.run rule data).value

/-- The position of the root of a rule, and the draft that the rule was compiled into. -/
def draft (engine : Engine) (rule : Value) : Except RuleError (Nat × Draft) :=
  (Compilation.compileWithin engine.maxDepth engine.foldConstants engine.maxDepth rule).run .empty

/-- The compiled form of a rule. -/
def compile (engine : Engine) (rule : Value) : Except RuleError CompiledRule :=
  (engine.draft rule).map fun (root, draft) => .ofArena draft.arena root

/-- Applies a rule and reports the events. -/
def applyTraced (engine : Engine) (rule data : Value) : Traced (Except RuleError Value) :=
  let outcome := engine.run rule data
  let logged := outcome.log.map Event.logged
  match outcome.value with
  | .ok v => ⟨.ok v, logged⟩
  | .error e => ⟨.error e, logged ++ [.rejected e]⟩

/-- Compiles a rule and reports the events. -/
def compileTraced (engine : Engine) (rule : Value) : Traced (Except RuleError CompiledRule) :=
  match engine.draft rule with
  | .ok (root, draft) =>
    let c := CompiledRule.ofArena draft.arena root
    ⟨.ok c, [.compiled c.nodeCount c.depth draft.folded]⟩
  | .error e => ⟨.error e, [.rejected e]⟩

/-- Compiles a rule, applies it and reports the events. -/
def compileAndApplyTraced (engine : Engine) (rule data : Value) :
    Traced (Except RuleError Value) :=
  let compiled := engine.compileTraced rule
  match compiled.result with
  | .ok c =>
    let outcome := c.run data
    ⟨.ok outcome.value, compiled.events ++ outcome.log.map Event.logged⟩
  | .error e => ⟨.error e, compiled.events⟩

end Engine

/-- The value of a rule for the data of a context. -/
def Context.apply (context : Context) (rule : Value) : Except RuleError Value :=
  ({} : Engine).apply rule context.data

/-- The context with the value of a rule for its data written at a path. -/
def Context.store (context : Context) (path : String) (rule : Value) :
    Except RuleError Context :=
  (context.apply rule).map (context.insert path)

end JsonRules
