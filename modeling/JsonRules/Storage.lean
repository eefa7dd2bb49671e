import JsonRules.Blob.Basic
import JsonRules.Value.Json

/-!
# Stored rules

Rules are kept in files, as JSON text or as blobs. A file is known here by its content, which is
missing if the file is, and by whether it can be written. Everything is loaded under the default
settings.
-/

namespace JsonRules

/-- Why no rule could be loaded or saved. -/
inductive StorageError where
  /-- The file cannot be read or written, or its text is not UTF-8. -/
  | inaccessible
  /-- The text is not JSON. -/
  | notJson
  /-- The JSON text is no rule. -/
  | rule (error : RuleError)
  /-- The bytes are no blob. -/
  | blob (error : BlobError)

namespace CompiledRule

/-- The compiled form of the rule that a JSON text is. -/
def ofJsonText (text : String) : Except StorageError CompiledRule :=
  match Value.ofJsonText? text with
  | none => .error .notJson
  | some rule => (({} : Engine).compile rule).mapError .rule

/-- The compiled form of the rule in a text file. -/
def ofTextFile (content? : Option (List UInt8)) : Except StorageError CompiledRule :=
  match content?.bind fun content => String.fromUTF8? ⟨content.toArray⟩ with
  | none => .error .inaccessible
  | some text => ofJsonText text

/-- The compiled rule in a binary file. -/
def ofBinaryFile (content? : Option (List UInt8)) : Except StorageError CompiledRule :=
  match content? with
  | none => .error .inaccessible
  | some content => (ofBytes content).mapError .blob

/-- The content of the binary file that a compiled rule is saved to. -/
def toBinaryFile (writable : Bool) (rule : CompiledRule) (source? : Option String) :
    Except StorageError (List UInt8) :=
  if writable then .ok (rule.toBytes source?) else .error .inaccessible

end CompiledRule

end JsonRules
