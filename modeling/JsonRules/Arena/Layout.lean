import JsonRules.Arena.Draft
import JsonRules.Term.Basic

/-!
# Layout of terms

A term is laid out in an arena behind what is there already: first the subterms in order, each with
everything below it, and then the node of the term itself. So children come before their parent, the
node of the whole term is the last one, and the edges of a call are listed together once its
arguments have been laid out.
-/

namespace JsonRules

namespace Arena

mutual

/-- Lays out a term and returns the position of its node. -/
def place (arena : Arena) : Term → Arena × Nat
  | .literal value => arena.add (.literal value)
  | .reference path default? =>
    let (arena, default?) := optionPlace arena default?
    arena.add (.reference path default?)
  | .lookup key default? =>
    let (arena, key) := place arena key
    let (arena, default?) := optionPlace arena default?
    arena.add (.lookup key default?)
  | .call op args =>
    let (arena, args) := allPlace arena args
    arena.addCall op args

/-- Lays out a default. -/
def optionPlace (arena : Arena) : Option Term → Arena × Option Nat
  | none => (arena, none)
  | some t =>
    let (arena, position) := place arena t
    (arena, some position)

/-- Lays out arguments and returns the positions of their nodes. -/
def allPlace (arena : Arena) : List Term → Arena × List Nat
  | [] => (arena, [])
  | t :: rest =>
    let (arena, position) := place arena t
    let (arena, positions) := allPlace arena rest
    (arena, position :: positions)

end

end Arena

end JsonRules
