import JsonRules.CompiledRule
import JsonRules.Engine

/-!
# Compilation that may log

Folding runs operators ahead of evaluation, and an operator may log when it is run. Here a rule is
compiled as by `Compilation.compileWithin`, but a call whose result is known is carried out by
running its operator as evaluation does, and what that logs is kept, before a fault as well.
-/

namespace JsonRules

namespace Operator

/-- Whether a call of literals may be carried out ahead of evaluation. -/
def isFoldable : Operator → Bool
  | eager (.calculation _) => true
  | _ => false

/-- The result of an operator on the values of its arguments. Operators that evaluate their own
arguments have none. -/
def combine (op : Operator) (data : Value) (args : List Value) : Logged Value :=
  match op with
  | eager op => op.combine data args
  | control _ => pure .null

end Operator

/-- A step of compilation, which may log and may find a fault. -/
abbrev LoggedCompilation := StateT Draft Evaluation

namespace LoggedCompilation

/-- A step that logs nothing. -/
def quiet {α : Type} (x : Compilation α) : LoggedCompilation α :=
  fun draft => ExceptT.mk (pure (x.run draft))

/-- Adds the call of the nodes at some positions, or its result in the place of everything behind
a mark, if the operator can be run ahead of evaluation and all arguments are literals. -/
def pushCall (foldConstants : Bool) (mark : Arena) (op : Operator) (args : List Nat) :
    LoggedCompilation Nat := do
  let { arena, folded } ← get
  match if foldConstants && op.isFoldable then args.mapM arena.literalAt? else none with
  | some values =>
    let value ← liftM (op.combine .null values)
    modify fun draft => draft.cutBack mark.nodes.size mark.edges.size
    quiet (Compilation.push (.literal value))
  | none =>
    let (arena, position) := arena.addCall op args
    set { arena, folded : Draft }
    return position

/-- Compiles a rule with so many levels left of a limit and returns the position of its node. -/
def compileWithin (limit : Nat) (foldConstants : Bool) :
    (levels : Nat) → (rule : Value) → LoggedCompilation Nat
  | 0, _ => throw (.tooDeep limit)
  | levels + 1, rule => do
    let inner := compileWithin limit foldConstants levels
    match ← quiet (Form.ofValue rule) with
    | .literal => quiet (Compilation.push (.literal rule))
    | .reference (.path text) default? =>
      let default? ← default?.mapM inner
      quiet (Compilation.pushVariable (some (.path (.ofString text))) default?)
    | .reference (.computed keyRule) default? =>
      let position ← inner keyRule
      let key? ← quiet (Compilation.keyAt foldConstants position)
      let default? ← default?.mapM inner
      quiet (Compilation.pushVariable key? default?)
    | .call op args =>
      let { arena, .. } ← get
      pushCall foldConstants arena op (← args.mapM inner)

end LoggedCompilation

/-- The compiled form of a rule, and what is logged while the rule is compiled. -/
def Engine.compileLogged (engine : Engine) (rule : Value) :
    Logged (Except RuleError CompiledRule) :=
  let compilation :=
    LoggedCompilation.compileWithin engine.maxDepth engine.foldConstants engine.maxDepth rule
  Except.map (fun (root, draft) => .ofArena draft.arena root) <$> (compilation.run .empty).run

end JsonRules
