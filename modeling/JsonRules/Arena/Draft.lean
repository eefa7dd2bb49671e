import JsonRules.Arena.Basic
import JsonRules.Operator.Calculation
import JsonRules.Rule.Form

/-!
# Compilation

A rule is compiled into a draft of an arena in one pass, which looks at every rule inside it,
whether an evaluation would reach it or not. The rules inside are laid out first, in order, the
computed key of a variable before its default, and then the node of the rule itself is added. So
children come before their parent, and the edges of a call are listed together once its arguments
have been laid out.

If constants are folded, what is known before there are data is taken off the draft again. A
calculation whose arguments have all become literals is replaced by its result: the draft is cut
back to where it ended before the arguments. A computed key that has become a literal is a known
path; if the literal names no path, nothing will ever be found, and only the default remains of the
variable.

Nodes and edges are numbered without a bound, so compilation never runs out of positions.
-/

namespace JsonRules

namespace Arena

/-- The arena with a node added, and the position of that node. -/
def add (arena : Arena) (node : Node) : Arena × Nat :=
  (⟨arena.nodes.push node, arena.edges⟩, arena.nodes.size)

/-- The arena with a call of the nodes at some positions added, and the position of the call. -/
def addCall (arena : Arena) (op : Operator) (args : List Nat) : Arena × Nat :=
  (⟨arena.nodes.push (.call op ⟨arena.edges.size, args.length⟩), arena.edges ++ args.toArray⟩,
    arena.nodes.size)

/-- The arena without all but so many of its nodes and edges. -/
def truncate (arena : Arena) (nodes edges : Nat) : Arena :=
  ⟨arena.nodes.take nodes, arena.edges.take edges⟩

/-- The value of the literal at a position. -/
def literalAt? (arena : Arena) (position : Nat) : Option Value :=
  match arena.nodes[position]? with
  | some (.literal value) => some value
  | _ => none

/-- The result of a call of the nodes at some positions, if it is known already. -/
def constantCall? (arena : Arena) (op : Operator) (args : List Nat) : Option Value :=
  match op with
  | .eager (.calculation c) => (args.mapM arena.literalAt?).map c.apply
  | _ => none

end Arena

/-- An arena that a rule is being compiled into. -/
structure Draft where
  /-- The arena so far. -/
  arena : Arena
  /-- The number of calls and keys that were found to be known. -/
  folded : Nat

namespace Draft

def empty : Draft := ⟨.empty, 0⟩

/-- The draft cut back because of something that was found to be known. -/
def cutBack (draft : Draft) (nodes edges : Nat) : Draft :=
  ⟨draft.arena.truncate nodes edges, draft.folded + 1⟩

end Draft

/-- Where a variable that has been compiled looks in the data. -/
inductive DraftKey where
  /-- At a path that is known. -/
  | path (path : Path)
  /-- At the path named by the value of a node. -/
  | node (position : Nat)

/-- A step of compilation, which may find a fault. -/
abbrev Compilation := StateT Draft (Except RuleError)

namespace Compilation

/-- Adds a node and returns its position. -/
def push (node : Node) : Compilation Nat :=
  modifyGet fun draft =>
    let (arena, position) := draft.arena.add node
    (position, { draft with arena })

/-- Adds the call of the nodes at some positions, or its result in the place of everything behind
a mark, if it is known. -/
def pushCall (foldConstants : Bool) (mark : Arena) (op : Operator) (args : List Nat) :
    Compilation Nat := do
  let { arena, folded } ← get
  match if foldConstants then arena.constantCall? op args else none with
  | some value =>
    modify fun draft => draft.cutBack mark.nodes.size mark.edges.size
    push (.literal value)
  | none =>
    let (arena, position) := arena.addCall op args
    set { arena, folded : Draft }
    return position

/-- The key that the node at a position computes: none if it is known and names no path. -/
def keyAt (foldConstants : Bool) (position : Nat) : Compilation (Option DraftKey) := do
  let { arena, .. } ← get
  match if foldConstants then arena.literalAt? position else none with
  | some key =>
    modify fun draft => draft.cutBack position arena.edges.size
    return key.pathText?.map fun text => .path (.ofString text)
  | none => return some (.node position)

/-- Adds a variable with the node of its default. A variable without a key is only its default. -/
def pushVariable (key? : Option DraftKey) (default? : Option Nat) : Compilation Nat :=
  match key?, default? with
  | some (.path path), default? => push (.reference path default?)
  | some (.node key), default? => push (.lookup key default?)
  | none, some default => return default
  | none, none => push (.literal .null)

/-- Compiles a rule with so many levels left of a limit and returns the position of its node. -/
def compileWithin (limit : Nat) (foldConstants : Bool) :
    (levels : Nat) → (rule : Value) → Compilation Nat
  | 0, _ => throw (.tooDeep limit)
  | levels + 1, rule => do
    let inner := compileWithin limit foldConstants levels
    match ← Form.ofValue rule with
    | .literal => push (.literal rule)
    | .reference (.path text) default? =>
      pushVariable (some (.path (.ofString text))) (← default?.mapM inner)
    | .reference (.computed keyRule) default? =>
      let key? ← keyAt foldConstants (← inner keyRule)
      pushVariable key? (← default?.mapM inner)
    | .call op args =>
      let { arena, .. } ← get
      pushCall foldConstants arena op (← args.mapM inner)

end Compilation

end JsonRules
