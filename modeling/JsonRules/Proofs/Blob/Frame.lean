import JsonRules.Blob.Frame
import Mathlib.Algebra.Group.Nat.Defs

/-!
# Opening frames

A frame that was closed around a payload is opened to the same payload, whatever the digest, if the
length of the payload fits its field in the header (`payload_close`).
-/

namespace JsonRules

namespace Frame

open Wire

variable (digest : List UInt8 → Vector UInt8 32) (p : List UInt8)

theorem length_checksum : (checksum digest p).length = 16 := by
  rw [checksum, List.length_take, Vector.length_toList]
  rfl

theorem length_header : (header digest p).length = headerLength := by
  simp only [header, List.length_append, length_littleEndian, length_checksum]
  rfl

/-! ## The fields of a frame -/

theorem drop_headerLength_close : (close digest p).drop headerLength = p := by
  rw [close, ← length_header digest p, List.drop_left]

theorem magic_close : fieldAt (close digest p) 0 4 = magic := rfl

theorem version_close : fieldAt (close digest p) 4 2 = littleEndian 2 formatVersion := rfl

theorem length_close : fieldAt (close digest p) 12 4 = littleEndian 4 p.length := rfl

theorem checksum_close : fieldAt (close digest p) 16 16 = checksum digest p := by
  have h : fieldAt (close digest p) 16 16 = (checksum digest p ++ p).take 16 := rfl
  rw [h, List.take_left' (length_checksum digest p)]

variable {p} in
/-- Closing a frame and opening it gives the payload back. -/
theorem payload_close (hlength : p.length < 2 ^ 32) : payload digest (close digest p) = .ok p := by
  have hfits : p.length >>> (8 * 4) = 0 := by
    rw [Nat.shiftRight_eq_div_pow, Nat.div_eq_of_lt hlength]
  have hversion : ofLittleEndian (littleEndian 2 formatVersion) = formatVersion := rfl
  have hheader : ¬ (close digest p).length < headerLength := by
    rw [close, List.length_append, length_header]
    omega
  simp only [payload, version_close, hversion, length_close, ofLittleEndian_littleEndian hfits,
    drop_headerLength_close, magic_close, checksum_close, List.take_length]
  rw [if_neg hheader, if_neg (by simp), if_neg (by simp), if_neg (Nat.lt_irrefl _),
    if_neg (by simp)]

end Frame

end JsonRules
