import JsonRules.Text.Dotted
import JsonRules.Text.Numeral
import JsonRules.Value.Text

/-!
# Paths

A path leads from a value to one of the values inside it: by key through objects and by index
through arrays. In text its segments are separated by dots, and the empty text is the path that
stays where it is, the *root*. A path can be resolved as text (`Value.resolve?`) or after it has
been split once (`Path.resolve?`).

Rules name paths by values (`Value.pathText?`): a text is a path, an integer a single segment, and
the absent value the root. Nothing else names a path.
-/

namespace JsonRules

namespace Value

/-- One step into a value: the value of a key in an object, the item at an index in an array. -/
def step? (data : Value) (segment : String) : Option Value :=
  match data with
  | object members => Members.find? segment members
  | array items => (Text.readIndex? segment.toList).bind fun index => items[index]?
  | _ => none

end Value

/-- The pieces of a text between its dots. -/
def dottedSegments (text : String) : List String := (Text.splitDots text.toList).map String.ofList

/-- A way from a value into it. -/
structure Path where
  /-- The keys and indices on the way, outermost first. -/
  segments : List String
deriving DecidableEq

namespace Path

/-- The path that stays where it is. -/
def root : Path := ⟨[]⟩

/-- The path that a text is. -/
def ofString (text : String) : Path := if text = "" then root else ⟨dottedSegments text⟩

/-- The path as text. -/
protected def toString (path : Path) : String :=
  String.ofList (Text.joinDots (path.segments.map String.toList))

/-- Whether the path stays where it is. -/
def isRoot (path : Path) : Bool := path.segments.isEmpty

/-- What the path leads to. -/
def resolve? (path : Path) (data : Value) : Option Value := path.segments.foldlM Value.step? data

end Path

namespace Value

/-- What a path given as text leads to. -/
def resolve? (data : Value) (text : String) : Option Value :=
  if text = "" then some data else (dottedSegments text).foldlM step? data

/-- The path that a value names, as text. -/
def pathText? : Value → Option String
  | string s => some s
  | int n => some (intText n)
  | null => some ""
  | _ => none

/-- What the path named by a key leads to. -/
def resolveKey? (data key : Value) : Option Value := (pathText? key).bind (resolve? data)

end Value

end JsonRules
