import JsonRules.Path

/-!
# Contexts

A context is a value built up by writing at paths. Writing creates the objects on the way, and
whatever else stands on the way (a scalar or an array) gives way to an object. Reading resolves the
path as rules do.

The text of a path is split at its dots when it is written to, so writing to the empty path writes
under the empty key, while reading the empty path gives the whole context.
-/

namespace JsonRules

namespace Value

/-- The members of an object; every other value has none. -/
def members : Value → List (String × Value)
  | object members => members
  | _ => []

/-- The value with another value written where the segments lead. -/
def write (data : Value) (segments : List String) (value : Value) : Value :=
  match segments with
  | [] => value
  | segment :: rest =>
    let inner := (data.member? segment).getD null
    object (Members.insert segment (inner.write rest value) data.members)

end Value

/-- A value that is built up path by path. -/
structure Context where
  /-- What has been built so far. -/
  data : Value

namespace Context

/-- The context without any member. -/
def empty : Context := ⟨.object []⟩

/-- The context with a value written at a path. -/
def insert (context : Context) (path : String) (value : Value) : Context :=
  ⟨context.data.write (dottedSegments path) value⟩

/-- The value at a path. -/
def get? (context : Context) (path : String) : Option Value := context.data.resolve? path

end Context

end JsonRules
