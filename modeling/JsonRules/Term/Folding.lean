import JsonRules.Operator.Calculation
import JsonRules.Term.Basic

/-!
# Constant folding

Folding carries out what can be known of a term before there are data. A calculation whose arguments
are all literals becomes its result. A computed key that has become a literal is a known path; if
the literal names no path, nothing will ever be found, and only the default remains of the variable.

The smart constructors `mkCall` and `mkLookup` do one such step at the root of a term, and `fold`
does them everywhere, from the inside out. `foldSteps` counts the steps that `fold` takes.
-/

namespace JsonRules

namespace Term

/-- The value of a literal. -/
def literal? : Term → Option Value
  | literal value => some value
  | _ => none

/-- The values of terms that are all literals. -/
def literals? (terms : List Term) : Option (List Value) := terms.mapM literal?

/-- The calculation that an operator is. -/
def calculation? : Operator → Option Calculation
  | .eager (.calculation c) => some c
  | _ => none

/-- The result of a call, if it is known already. -/
def constantCall? (op : Operator) (args : List Term) : Option Value :=
  match calculation? op, literals? args with
  | some c, some values => some (c.apply values)
  | _, _ => none

/-- The call of an operator, or its result if that is known already. -/
def mkCall (op : Operator) (args : List Term) : Term :=
  match constantCall? op args with
  | some value => literal value
  | none => call op args

/-- The variable with a key that is known. -/
def ofKey (key : Value) (default? : Option Term) : Term :=
  match key.pathText? with
  | some text => reference (.ofString text) default?
  | none => default?.getD (literal .null)

/-- The variable with a computed key, or with a known path if the key is known already. -/
def mkLookup (key : Term) (default? : Option Term) : Term :=
  match key with
  | literal value => ofKey value default?
  | key => lookup key default?

mutual

/-- The term with everything carried out that is known already. -/
def fold : Term → Term
  | literal value => literal value
  | reference path default? => reference path (optionFold default?)
  | lookup key default? => mkLookup (fold key) (optionFold default?)
  | call op args => mkCall op (allFold args)

/-- A default, folded. -/
def optionFold : Option Term → Option Term
  | none => none
  | some t => some (fold t)

/-- Arguments, folded. -/
def allFold : List Term → List Term
  | [] => []
  | t :: rest => fold t :: allFold rest

end

mutual

/-- The number of calls and keys that folding finds to be known. -/
def foldSteps : Term → Nat
  | literal _ => 0
  | reference _ default? => optionFoldSteps default?
  | lookup key default? =>
    foldSteps key + optionFoldSteps default? + (if (fold key).literal?.isSome then 1 else 0)
  | call op args =>
    allFoldSteps args + (if (constantCall? op (allFold args)).isSome then 1 else 0)

/-- The steps of folding a default. -/
def optionFoldSteps : Option Term → Nat
  | none => 0
  | some t => foldSteps t

/-- The steps of folding arguments. -/
def allFoldSteps : List Term → Nat
  | [] => 0
  | t :: rest => foldSteps t + allFoldSteps rest

end

end Term

end JsonRules
