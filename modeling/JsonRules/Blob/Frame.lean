import JsonRules.Text.Numeral
import JsonRules.Wire.LittleEndian

/-!
# Frames

A frame protects a payload. Its header of thirty-two bytes holds, in this order, four magic bytes,
the version of the format and that of the engine (two bytes each), four reserved bytes, the length
of the payload in four bytes and a checksum of sixteen. The checksum is the front half of a digest
of the payload; what digest is a parameter here.

Opening a frame checks the length of the header, the magic bytes, the version of the format, the
length of the payload and the checksum, in this order. Bytes behind the payload are ignored.
-/

namespace JsonRules

namespace Frame

open Wire

/-- Why bytes are no frame. -/
inductive Damage where
  /-- The magic bytes are others. -/
  | badMagic
  /-- The format has another version. -/
  | incompatibleVersion (version : Nat)
  /-- The checksum is not that of the payload. -/
  | checksumMismatch
  /-- There are fewer bytes than there should be. -/
  | lengthMismatch (expected actual : Nat)
deriving DecidableEq

/-- The bytes that every frame starts with. -/
def magic : List UInt8 := [0x54, 0x53, 0x52, 0x41]

/-- The version of the format. -/
def formatVersion : Nat := 1

/-- The version of the engine that writes frames. -/
def engineVersion : Nat := 1

/-- The length of the header. -/
def headerLength : Nat := 32

/-- The checksum of a payload. -/
def checksum (digest : List UInt8 → Vector UInt8 32) (payload : List UInt8) : List UInt8 :=
  (digest payload).toList.take 16

/-- The header of the frame of a payload. -/
def header (digest : List UInt8 → Vector UInt8 32) (payload : List UInt8) : List UInt8 :=
  magic ++ littleEndian 2 formatVersion ++ littleEndian 2 engineVersion ++ littleEndian 4 0
    ++ littleEndian 4 payload.length ++ checksum digest payload

/-- The frame of a payload. -/
def close (digest : List UInt8 → Vector UInt8 32) (payload : List UInt8) : List UInt8 :=
  header digest payload ++ payload

/-- The bytes of a field, given by its place and length. -/
def fieldAt (bytes : List UInt8) (place length : Nat) : List UInt8 := (bytes.drop place).take length

/-- The payload of a frame. -/
def payload (digest : List UInt8 → Vector UInt8 32) (bytes : List UInt8) :
    Except Damage (List UInt8) :=
  let version := ofLittleEndian (fieldAt bytes 4 2)
  let length := ofLittleEndian (fieldAt bytes 12 4)
  let body := bytes.drop headerLength
  if bytes.length < headerLength then .error (.lengthMismatch headerLength bytes.length)
  else if fieldAt bytes 0 4 ≠ magic then .error .badMagic
  else if version ≠ formatVersion then .error (.incompatibleVersion version)
  else if body.length < length then .error (.lengthMismatch length body.length)
  else if checksum digest (body.take length) ≠ fieldAt bytes 16 16 then .error .checksumMismatch
  else .ok (body.take length)

namespace Damage

open Text (numeral)

/-- The wording of a damage. -/
def message : Damage → String
  | badMagic => "not a tessera binary: invalid magic bytes"
  | incompatibleVersion version =>
    "incompatible format version: blob is v" ++ numeral version ++ ", engine supports v"
      ++ numeral formatVersion
  | checksumMismatch => "integrity check failed: BLAKE3 checksum mismatch"
  | lengthMismatch expected actual =>
    "payload length mismatch: expected " ++ numeral expected ++ " bytes, got " ++ numeral actual

end Damage

end Frame

end JsonRules
