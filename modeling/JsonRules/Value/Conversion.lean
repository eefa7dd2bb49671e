import JsonRules.Value.Basic

/-!
# Conversion to values

`ToValue` is the class of types whose elements are values in an evident way: truth values, integers
of up to 64 bits, floats, texts, lists and optional elements of such types, and members under keys.
-/

namespace JsonRules

/-- Types whose elements can be used as values. -/
class ToValue (α : Type) where
  /-- The element as a value. -/
  toValue : α → Value

export ToValue (toValue)

instance : ToValue Value := ⟨id⟩

instance : ToValue Bool := ⟨.bool⟩

instance : ToValue Int64 := ⟨.int⟩

instance : ToValue Int32 := ⟨fun n => .int n.toInt64⟩

instance : ToValue UInt32 := ⟨fun n => .int n.toUInt64.toInt64⟩

instance : ToValue Binary64 := ⟨.float⟩

instance : ToValue String := ⟨.string⟩

/-- A list is an array. -/
instance {α : Type} [ToValue α] : ToValue (List α) := ⟨fun items => .array (items.map toValue)⟩

/-- Nothing is absent. -/
instance {α : Type} [ToValue α] : ToValue (Option α) :=
  ⟨fun element => element.elim .null toValue⟩

/-- Values under keys are an object, the last of several values for a key winning. -/
instance {α : Type} [ToValue α] : ToValue (List (String × α)) :=
  ⟨fun entries => .object (Members.ofList (entries.map fun (key, v) => (key, toValue v)))⟩

end JsonRules
