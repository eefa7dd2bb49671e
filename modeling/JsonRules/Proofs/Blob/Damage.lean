import JsonRules.Proofs.Blob.Basic

/-!
# Damaged blobs

What becomes of a frame that is cut short, that has other bytes in a field of its header, or that
has bytes behind it. A header is taken apart into its fields (`Frame.Header`), and opening a frame
is a matter of these fields and of the bytes behind them (`Frame.Header.payload_eq`). Damage is then
a field with other contents, and the first check that it fails tells which field that is.

Main statement: every damage to the frame of a blob is found and classified, whatever the digest,
and the fields that nothing depends on may be anything (`CompiledRule.ofBytesWith_damaged`).
-/

namespace JsonRules

namespace Frame

open Wire

/-- Bytes with other contents in the field at a place. -/
def overwrite (bytes : List UInt8) (place : Nat) (field : List UInt8) : List UInt8 :=
  bytes.take place ++ field ++ bytes.drop (place + field.length)

/-- The fields of a header. -/
structure Header where
  /-- The bytes that every frame starts with. -/
  magic : Vector UInt8 4
  /-- The version of the format. -/
  version : Vector UInt8 2
  /-- The version of the engine and the reserved bytes. -/
  free : Vector UInt8 6
  /-- The length of the payload. -/
  length : Vector UInt8 4
  /-- The checksum of the payload. -/
  checksum : Vector UInt8 16

namespace Header

/-- The bytes of a header. -/
def bytes (h : Header) : List UInt8 :=
  h.magic.toList ++ h.version.toList ++ h.free.toList ++ h.length.toList ++ h.checksum.toList

variable (h : Header) (body : List UInt8)

theorem length_bytes : h.bytes.length = headerLength := by
  simp [bytes, headerLength]

/-! ## The fields of bytes that start with a header -/

theorem fieldAt_magic : fieldAt (h.bytes ++ body) 0 4 = h.magic.toList := by
  simp [fieldAt, bytes]

theorem fieldAt_version : fieldAt (h.bytes ++ body) 4 2 = h.version.toList := by
  simp [fieldAt, bytes]

theorem fieldAt_length : fieldAt (h.bytes ++ body) 12 4 = h.length.toList := by
  simp [fieldAt, bytes, List.drop_append, List.drop_of_length_le]

theorem fieldAt_checksum : fieldAt (h.bytes ++ body) 16 16 = h.checksum.toList := by
  simp [fieldAt, bytes, List.drop_append, List.drop_of_length_le]

theorem drop_headerLength : (h.bytes ++ body).drop headerLength = body := by
  rw [← h.length_bytes, List.drop_left]

/-- Opening a frame looks at the magic bytes, the version, the length and the checksum, in this
order. -/
theorem payload_eq (digest : List UInt8 → Vector UInt8 32) :
    payload digest (h.bytes ++ body) =
      if h.magic.toList ≠ Frame.magic then .error .badMagic
      else if ofLittleEndian h.version.toList ≠ formatVersion then
        .error (.incompatibleVersion (ofLittleEndian h.version.toList))
      else if body.length < ofLittleEndian h.length.toList then
        .error (.lengthMismatch (ofLittleEndian h.length.toList) body.length)
      else if Frame.checksum digest (body.take (ofLittleEndian h.length.toList)) ≠
          h.checksum.toList then .error .checksumMismatch
      else .ok (body.take (ofLittleEndian h.length.toList)) := by
  have hlong : ¬ (h.bytes ++ body).length < headerLength := by
    rw [List.length_append, h.length_bytes]
    omega
  simp only [payload, if_neg hlong, fieldAt_magic, fieldAt_version, fieldAt_length,
    fieldAt_checksum, drop_headerLength]

/-- With the magic bytes and the version as they should be, the length and the checksum decide. -/
theorem payload_eq_of_version {digest : List UInt8 → Vector UInt8 32}
    (hmagic : h.magic.toList = Frame.magic)
    (hversion : ofLittleEndian h.version.toList = formatVersion) :
    payload digest (h.bytes ++ body) =
      if body.length < ofLittleEndian h.length.toList then
        .error (.lengthMismatch (ofLittleEndian h.length.toList) body.length)
      else if Frame.checksum digest (body.take (ofLittleEndian h.length.toList)) ≠
          h.checksum.toList then .error .checksumMismatch
      else .ok (body.take (ofLittleEndian h.length.toList)) := by
  rw [payload_eq, if_neg (not_not_intro hmagic), if_neg (not_not_intro hversion)]

/-! ## Overwriting fields -/

theorem overwrite_magic (field : Vector UInt8 4) :
    overwrite (h.bytes ++ body) 0 field.toList = { h with magic := field }.bytes ++ body := by
  simp [overwrite, bytes]

theorem overwrite_version (field : Vector UInt8 2) :
    overwrite (h.bytes ++ body) 4 field.toList = { h with version := field }.bytes ++ body := by
  simp [overwrite, bytes, List.drop_append, List.drop_of_length_le]

theorem overwrite_free (field : Vector UInt8 6) :
    overwrite (h.bytes ++ body) 6 field.toList = { h with free := field }.bytes ++ body := by
  simp [overwrite, bytes, List.take_append, List.drop_append, List.take_of_length_le,
    List.drop_of_length_le]

theorem overwrite_length (field : Vector UInt8 4) :
    overwrite (h.bytes ++ body) 12 field.toList = { h with length := field }.bytes ++ body := by
  simp [overwrite, bytes, List.take_append, List.drop_append, List.take_of_length_le,
    List.drop_of_length_le]

theorem overwrite_checksum (field : Vector UInt8 16) :
    overwrite (h.bytes ++ body) 16 field.toList = { h with checksum := field }.bytes ++ body := by
  simp [overwrite, bytes, List.take_append, List.drop_append, List.take_of_length_le,
    List.drop_of_length_le]

/-! ## The header of a payload -/

variable (digest : List UInt8 → Vector UInt8 32) (p : List UInt8)

/-- The header of the frame of a payload. -/
def ofPayload : Header where
  magic := ⟨Frame.magic.toArray, by simp [Frame.magic]⟩
  version := ⟨(littleEndian 2 formatVersion).toArray, by simp [length_littleEndian]⟩
  free := ⟨(littleEndian 2 engineVersion ++ littleEndian 4 0).toArray,
    by simp [length_littleEndian]⟩
  length := ⟨(littleEndian 4 p.length).toArray, length_littleEndian 4 p.length⟩
  checksum := ⟨(Frame.checksum digest p).toArray, length_checksum digest p⟩

theorem close_eq : close digest p = (ofPayload digest p).bytes ++ p := by
  simp [close, header, bytes, ofPayload]

theorem magic_ofPayload : (ofPayload digest p).magic.toList = Frame.magic := rfl

theorem version_ofPayload : ofLittleEndian (ofPayload digest p).version.toList = formatVersion :=
  rfl

theorem checksum_ofPayload : (ofPayload digest p).checksum.toList = Frame.checksum digest p := rfl

variable {p}

theorem length_ofPayload (hlength : p.length < 2 ^ 32) :
    ofLittleEndian (ofPayload digest p).length.toList = p.length := by
  have hfits : p.length >>> (8 * 4) = 0 := by
    rw [Nat.shiftRight_eq_div_pow, Nat.div_eq_of_lt hlength]
  exact ofLittleEndian_littleEndian hfits

end Header

/-! ## Damage to the frame of a payload -/

section Damage

variable (digest : List UInt8 → Vector UInt8 32) {p : List UInt8}

/-- The length that a frame stores is that of its payload. -/
theorem storedLength_close (hlength : p.length < 2 ^ 32) :
    ofLittleEndian (fieldAt (close digest p) 12 4) = p.length := by
  rw [Header.close_eq, Header.fieldAt_length, Header.length_ofPayload digest hlength]

theorem length_close_eq : (close digest p).length = headerLength + p.length := by
  rw [close, List.length_append, length_header]

/-- A frame that is cut short lacks bytes of its header or of its payload. -/
theorem payload_take (hlength : p.length < 2 ^ 32) {n : Nat} (hn : n < (close digest p).length) :
    payload digest ((close digest p).take n) = .error
      (if n < headerLength then .lengthMismatch headerLength n
        else .lengthMismatch p.length (n - headerLength)) := by
  rw [length_close_eq] at hn
  by_cases hheader : n < headerLength
  · have hshort : ((close digest p).take n).length = n := by
      rw [List.length_take, length_close_eq]
      omega
    simp only [payload, hshort, if_pos hheader]
  · have htake : (close digest p).take n =
        (Header.ofPayload digest p).bytes ++ p.take (n - headerLength) := by
      rw [Header.close_eq, List.take_append, Header.length_bytes,
        List.take_of_length_le (by rw [Header.length_bytes]; omega)]
    have hshort : (p.take (n - headerLength)).length = n - headerLength := by
      rw [List.length_take]
      omega
    rw [htake, Header.payload_eq_of_version _ _ (Header.magic_ofPayload digest p)
      (Header.version_ofPayload digest p), Header.length_ofPayload digest hlength, hshort,
      if_pos (by omega), if_neg hheader]

theorem payload_overwrite_magic {field : Vector UInt8 4}
    (hfield : field.toList ≠ fieldAt (close digest p) 0 4) :
    payload digest (overwrite (close digest p) 0 field.toList) = .error .badMagic := by
  rw [magic_close] at hfield
  rw [Header.close_eq, Header.overwrite_magic, Header.payload_eq, if_pos hfield]

theorem payload_overwrite_version {field : Vector UInt8 2}
    (hfield : field.toList ≠ fieldAt (close digest p) 4 2) :
    payload digest (overwrite (close digest p) 4 field.toList) =
      .error (.incompatibleVersion (ofLittleEndian field.toList)) := by
  rw [version_close] at hfield
  have hversion : ofLittleEndian field.toList ≠ formatVersion := fun h =>
    hfield (eq_of_ofLittleEndian_eq (by rw [Vector.length_toList, length_littleEndian]) h)
  rw [Header.close_eq, Header.overwrite_version, Header.payload_eq,
    if_neg (not_not_intro (Header.magic_ofPayload digest p)), if_pos hversion]

theorem payload_overwrite_length {field : Vector UInt8 4}
    (hfield : p.length < ofLittleEndian field.toList) :
    payload digest (overwrite (close digest p) 12 field.toList) =
      .error (.lengthMismatch (ofLittleEndian field.toList) p.length) := by
  rw [Header.close_eq, Header.overwrite_length, Header.payload_eq_of_version, if_pos hfield]
  · exact Header.magic_ofPayload digest p
  · exact Header.version_ofPayload digest p

theorem payload_overwrite_checksum (hlength : p.length < 2 ^ 32) {field : Vector UInt8 16}
    (hfield : field.toList ≠ fieldAt (close digest p) 16 16) :
    payload digest (overwrite (close digest p) 16 field.toList) = .error .checksumMismatch := by
  rw [checksum_close] at hfield
  rw [Header.close_eq, Header.overwrite_checksum, Header.payload_eq_of_version,
    Header.length_ofPayload digest hlength, if_neg (Nat.lt_irrefl _), List.take_length,
    if_pos hfield.symm]
  · exact Header.magic_ofPayload digest p
  · exact Header.version_ofPayload digest p

/-- Nothing depends on the version of the engine, the reserved bytes and what is behind the frame.
-/
theorem payload_overwrite_free (hlength : p.length < 2 ^ 32) (field : Vector UInt8 6)
    (rest : List UInt8) :
    payload digest (overwrite (close digest p) 6 field.toList ++ rest) = .ok p := by
  rw [Header.close_eq, Header.overwrite_free, List.append_assoc, Header.payload_eq_of_version,
    Header.length_ofPayload digest hlength, List.take_left, Header.checksum_ofPayload,
    if_neg (by rw [List.length_append]; omega), if_neg (not_not_intro rfl)]
  · exact Header.magic_ofPayload digest p
  · exact Header.version_ofPayload digest p

end Damage

end Frame

namespace CompiledRule

open JsonRules.Frame Wire

variable {digest : List UInt8 → Digest} {bytes : List UInt8} {c : CompiledRule}

theorem ofBytesWith_eq_damaged {damage : Damage} (h : Frame.payload digest bytes = .error damage) :
    ofBytesWith digest bytes = .error (.damaged damage) := by
  rw [ofBytesWith, h]

/-- Bytes are a rule if the payload of that rule is in their frame and the rule is not too deep. -/
theorem Obtainable.ofBytesWith_eq (h : c.Obtainable) (hdepth : c.depth ≤ defaultMaxDepth)
    {source? : Option Digest} (hlength : (Payload.ofRule c source?).write.length < 2 ^ 32)
    (hpayload : Frame.payload digest bytes = .ok (Payload.ofRule c source?).write) :
    ofBytesWith digest bytes = .ok c := by
  refine ofBytesWith_eq_ok_iff.2 ⟨_, _, _, hpayload, h.reliable.read_write (h.storable hlength)
    hlength, ?_⟩
  rw [Payload.validate_ofRule h.reliable, if_pos hdepth]

/-- Damage to the frame of a blob is found, and the error says what it is:

* bytes are missing, of the header or of the payload, if the blob is cut short anywhere;
* other magic bytes, another version of the format and another checksum are reported as such;
* bytes are missing if the stored length is larger than the payload.

The version of the engine and the reserved bytes may be anything, and so may be what is behind the
blob: the rule is restored as it was. -/
theorem ofBytesWith_damaged (digest : List UInt8 → Digest) (h : c.Obtainable)
    (hdepth : c.depth ≤ defaultMaxDepth) (source? : Option String)
    (hlength : (Payload.ofRule c
      (source?.map fun source => digest source.toUTF8.toList)).write.length < 2 ^ 32) :
    let blob := c.toBytesWith digest source?
    let storedLength := ofLittleEndian (fieldAt blob 12 4)
    (∀ n < blob.length, ofBytesWith digest (blob.take n) = .error (.damaged
      (if n < headerLength then .lengthMismatch headerLength n
        else .lengthMismatch storedLength (n - headerLength)))) ∧
    (∀ field : Vector UInt8 4, field.toList ≠ fieldAt blob 0 4 →
      ofBytesWith digest (overwrite blob 0 field.toList) = .error (.damaged .badMagic)) ∧
    (∀ field : Vector UInt8 2, field.toList ≠ fieldAt blob 4 2 →
      ofBytesWith digest (overwrite blob 4 field.toList) =
        .error (.damaged (.incompatibleVersion (ofLittleEndian field.toList)))) ∧
    (∀ field : Vector UInt8 4, storedLength < ofLittleEndian field.toList →
      ofBytesWith digest (overwrite blob 12 field.toList) = .error (.damaged
        (.lengthMismatch (ofLittleEndian field.toList) (blob.length - headerLength)))) ∧
    (∀ field : Vector UInt8 16, field.toList ≠ fieldAt blob 16 16 →
      ofBytesWith digest (overwrite blob 16 field.toList) =
        .error (.damaged .checksumMismatch)) ∧
    ∀ (field : Vector UInt8 6) (rest : List UInt8),
      ofBytesWith digest (overwrite blob 6 field.toList ++ rest) = .ok c := by
  intro blob storedLength
  have hstored := storedLength_close digest hlength
  have hlong := length_close_eq digest (p := (Payload.ofRule c
    (source?.map fun source => digest source.toUTF8.toList)).write)
  refine ⟨fun n hn => ?_, fun field hfield => ?_, fun field hfield => ?_, fun field hfield => ?_,
    fun field hfield => ?_, fun field rest => ?_⟩
  · refine ofBytesWith_eq_damaged ((payload_take digest hlength hn).trans ?_)
    rw [← hstored]
    rfl
  · exact ofBytesWith_eq_damaged (payload_overwrite_magic digest hfield)
  · exact ofBytesWith_eq_damaged (payload_overwrite_version digest hfield)
  · have hactual : blob.length - headerLength = _ := hlong ▸ Nat.add_sub_cancel_left _ _
    rw [hactual]
    exact ofBytesWith_eq_damaged (payload_overwrite_length digest (hstored ▸ hfield))
  · exact ofBytesWith_eq_damaged (payload_overwrite_checksum digest hlength hfield)
  · exact h.ofBytesWith_eq hdepth hlength (payload_overwrite_free digest hlength field rest)

theorem ofBytesWith_damaged_sharedSum :
    sharedSum.Obtainable ∧ sharedSum.depth ≤ defaultMaxDepth ∧
      (Payload.ofRule sharedSum none).write.length < 2 ^ 32 ∧
      ofBytesWith (fun _ => Vector.replicate 32 7) (overwrite (sharedSum.toBytesWith
        (fun _ => Vector.replicate 32 7) none) 4 [2, 0]) =
        .error (.damaged (.incompatibleVersion 2)) := by
  have hobtainable : sharedSum.Obtainable := .restored ofBytesWith_sharedSumBytes
  have hdepth : sharedSum.depth ≤ defaultMaxDepth := by decide
  have hlength : (Payload.ofRule sharedSum none).write.length < 2 ^ 32 := by decide +kernel
  obtain ⟨-, -, hversion, -⟩ := ofBytesWith_damaged (fun _ => Vector.replicate 32 7) hobtainable
    hdepth none hlength
  exact ⟨hobtainable, hdepth, hlength, hversion #v[2, 0] (by decide)⟩

end CompiledRule

end JsonRules
