import JsonRules.Blob.Frame
import JsonRules.Blob.Validation
import JsonRules.Digest.Blake3

/-!
# Blobs

A blob is a compiled rule as bytes: a payload in a frame. Writing cannot fail. Reading opens the
frame, reads the payload and validates it; bytes of the payload that are left over are ignored. The
digest that frames and sources are secured with is a parameter of `toBytesWith` and `ofBytesWith`,
and BLAKE3 in `toBytes` and `ofBytes`.
-/

namespace JsonRules

/-- Why bytes are no blob. -/
inductive BlobError where
  /-- The bytes are no frame. -/
  | damaged (damage : Frame.Damage)
  /-- The bytes in the frame are no payload. -/
  | undecodable
  /-- The payload is no arena. -/
  | invalid (defect : Defect)
deriving DecidableEq

/-- The wording of an error, where there is one. -/
def BlobError.message? : BlobError → Option String
  | damaged damage => some damage.message
  | undecodable => none
  | invalid defect => some ("validation failed: " ++ defect.message)

namespace CompiledRule

/-- The blob of a compiled rule, with the digest of the text it came from if that is given. -/
def toBytesWith (digest : List UInt8 → Digest) (rule : CompiledRule) (source? : Option String) :
    List UInt8 :=
  Frame.close digest
    (Payload.ofRule rule (source?.map fun source => digest source.toUTF8.toList)).write

/-- The compiled rule that a blob is. -/
def ofBytesWith (digest : List UInt8 → Digest) (bytes : List UInt8) :
    Except BlobError CompiledRule :=
  match Frame.payload digest bytes with
  | .error damage => .error (.damaged damage)
  | .ok payload =>
    match Payload.read.run payload with
    | none => .error .undecodable
    | some (stored, _) => stored.validate.mapError .invalid

/-- The blob of a compiled rule, secured by BLAKE3. -/
def toBytes (rule : CompiledRule) (source? : Option String) : List UInt8 :=
  rule.toBytesWith Blake3.hash source?

/-- The compiled rule that a blob secured by BLAKE3 is. -/
def ofBytes (bytes : List UInt8) : Except BlobError CompiledRule := ofBytesWith Blake3.hash bytes

end CompiledRule

end JsonRules
