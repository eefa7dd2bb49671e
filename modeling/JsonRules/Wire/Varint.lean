import JsonRules.Integer
import JsonRules.Wire.Reader

/-!
# Integers of variable length

A natural number below 251 is one byte. Larger ones follow a marker that tells their width: two
bytes after 251, four after 252 and eight after 253. Writing takes the shortest form; reading
accepts a longer one, but none wider than the field it is for. Integers with sign are folded into
natural numbers first, so that those near zero are short whatever their sign.

Main statement: what is written is read back, in front of anything (`readVarint_writeVarint`).
-/

namespace JsonRules

namespace Wire

/-- The shortest form of a number below `2 ^ 64`. -/
def writeVarint (n : Nat) : List UInt8 :=
  if n < 251 then [UInt8.ofNat n]
  else if n < UInt16.size then 251 :: littleEndian 2 n
  else if n < UInt32.size then 252 :: littleEndian 4 n
  else 253 :: littleEndian 8 n

/-- The width that a first byte announces, if it is a marker of one. -/
def markedWidth? (first : UInt8) : Option Nat :=
  if first = 251 then some 2
  else if first = 252 then some 4
  else if first = 253 then some 8
  else none

/-- Reads a number for a field of `width` bytes. -/
def readVarint (width : Nat) : Reader Nat := do
  let first ← readByte
  if first.toNat < 251 then return first.toNat
  match markedWidth? first with
  | some count => if count ≤ width then readFixed count else failure
  | none => failure

/-- The width of positions. -/
def positionWidth : Nat := 4

/-- The width of counts and of integers. -/
def countWidth : Nat := 8

/-- A 64-bit integer as a natural number: twice its absolute value, less one if it is negative. -/
def zigzag (n : Int64) : Nat :=
  if n.toInt < 0 then 2 * n.toInt.natAbs - 1 else 2 * n.toInt.natAbs

/-- The integer that a natural number below `2 ^ 64` stands for. -/
def unzigzag (n : Nat) : Int64 :=
  if n % 2 = 1 then Int64.ofInt (-((n + 1) / 2 : Nat)) else Int64.ofInt (n / 2 : Nat)

theorem unzigzag_zigzag (n : Int64) : unzigzag (zigzag n) = n := by
  have hlo := n.le_toInt
  have hhi := n.toInt_lt
  simp only [zigzag]
  split
  · have h : (2 * n.toInt.natAbs - 1) % 2 = 1 := by omega
    have e : -(((2 * n.toInt.natAbs - 1 + 1) / 2 : Nat) : Int) = n.toInt := by omega
    rw [unzigzag, if_pos h, e, Int64.ofInt_toInt]
  · have h : ¬ (2 * n.toInt.natAbs) % 2 = 1 := by omega
    have e : (((2 * n.toInt.natAbs) / 2 : Nat) : Int) = n.toInt := by omega
    rw [unzigzag, if_neg h, e, Int64.ofInt_toInt]

/-- A number with a marker and so many bytes is read back if the field is wide enough. -/
theorem readVarint_marked {width count n : Nat} {marker : UInt8} (hm : 250 < marker.toNat)
    (hc : markedWidth? marker = some count) (hw : count ≤ width) (h : n >>> (8 * count) = 0)
    (rest : List UInt8) :
    readVarint width (marker :: littleEndian count n ++ rest) = some (n, rest) := by
  have hr := readFixed_littleEndian h rest
  have hn : ¬ marker.toNat < 251 := by omega
  simp only [readVarint, readByte, bind, StateT.bind, List.cons_append, Option.bind, if_neg hn, hc,
    if_pos hw, pure, hr]

/-- A number that fits a field is read back, whatever follows it. -/
theorem readVarint_writeVarint {width n : Nat} (hw : width = 4 ∨ width = 8)
    (h : n >>> (8 * width) = 0) (rest : List UInt8) :
    readVarint width (writeVarint n ++ rest) = some (n, rest) := by
  rw [writeVarint]
  split
  · rename_i hn
    have e : (UInt8.ofNat n).toNat = n := by rw [UInt8.toNat_ofNat']; omega
    simp only [readVarint, readByte, bind, StateT.bind, List.cons_append, List.nil_append,
      Option.bind, e, if_pos hn]
    rfl
  · split
    · rename_i hn
      rw [UInt16.size] at hn
      exact readVarint_marked (by decide) rfl (by omega)
        (by rw [Nat.shiftRight_eq_div_pow]; omega) rest
    · split
      · rename_i hn
        rw [UInt32.size] at hn
        exact readVarint_marked (by decide) rfl (by omega)
          (by rw [Nat.shiftRight_eq_div_pow]; omega) rest
      · rename_i hn
        rw [UInt32.size] at hn
        have h8 : width = 8 := by
          rcases hw with rfl | rfl
          · rw [Nat.shiftRight_eq_div_pow] at h; omega
          · rfl
        subst h8
        exact readVarint_marked (by decide) rfl (by omega) h rest

end Wire

end JsonRules
