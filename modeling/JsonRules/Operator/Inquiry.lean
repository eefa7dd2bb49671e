import JsonRules.Operator.Calculation
import JsonRules.Path

/-!
# Inquiries

Inquiries are about keys that the data may not have. A key is missing if the path that it names
leads nowhere or to the absent value; a key that names no path is always missing.
-/

namespace JsonRules

namespace Inquiry

/-- Whether the data do not have a key. -/
def isMissing (data key : Value) : Bool :=
  match data.resolveKey? key with
  | none => true
  | some v => v.isNull

/-- The keys that the data do not have, in order. -/
def missingKeys (data : Value) (keys : List Value) : List Value := keys.filter (isMissing data)

/-- The keys asked for: the items of the first argument if that is an array, or else the arguments
themselves. -/
def askedKeys (args : List Value) : List Value :=
  match args with
  | .array keys :: _ => keys
  | _ => args

/-- A list of keys given as one value: an array of them, none at all, or a single one. -/
def keyList : Value → List Value
  | .array keys => keys
  | .null => []
  | key => [key]

/-- The least whole number of keys that satisfies a demand; what is not a number demands nothing. -/
def demand (v : Value) : Binary64 :=
  match v.toNumber? with
  | some n => n.toBinary64.ceil
  | none => .zero false

/-- Whether a count reaches a demand. -/
def reaches (count : Nat) (need : Binary64) : Bool :=
  ((Binary64.ofInt count).compare need).any Ordering.isGE

/-- The missing keys, unless as many keys as demanded are there. -/
def missingUnless (data need : Value) (keys : List Value) : List Value :=
  let absent := missingKeys data keys
  if reaches (keys.length - absent.length) (demand need) then [] else absent

/-- The result of an inquiry on the arguments that count. -/
def compute (q : Inquiry) (data : Value) (args : List Value) : Value :=
  let arg := Calculation.argument args
  match q with
  | missing => .array (missingKeys data (askedKeys args))
  | missingSome => .array (missingUnless data (arg 0) (keyList (arg 1)))

end Inquiry

end JsonRules
