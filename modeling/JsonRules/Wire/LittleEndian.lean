/-!
# Little-endian numbers

A number as a fixed count of bytes, the lowest first. Main statement: `ofLittleEndian` gives back
every number that fits the count.
-/

namespace JsonRules

namespace Wire

/-- The lowest `count` bytes of a number, the lowest first. -/
def littleEndian : (count n : Nat) → List UInt8
  | 0, _ => []
  | count + 1, n => UInt8.ofNat n :: littleEndian count (n / 256)

/-- The number that bytes stand for, the lowest first. -/
def ofLittleEndian : List UInt8 → Nat
  | [] => 0
  | b :: rest => b.toNat + 256 * ofLittleEndian rest

theorem length_littleEndian (count n : Nat) : (littleEndian count n).length = count := by
  induction count generalizing n with
  | zero => rfl
  | succ count ih => rw [littleEndian, List.length_cons, ih]

/-- A number that has no bits beyond the count of bytes is given back. -/
theorem ofLittleEndian_littleEndian {count n : Nat} (h : n >>> (8 * count) = 0) :
    ofLittleEndian (littleEndian count n) = n := by
  induction count generalizing n with
  | zero => exact h.symm
  | succ count ih =>
    have hn : (n / 256) >>> (8 * count) = 0 := by
      rw [← h, Nat.mul_succ, Nat.add_comm, Nat.shiftRight_add, Nat.shiftRight_eq_div_pow n 8]
    rw [littleEndian, ofLittleEndian, ih hn, UInt8.toNat_ofNat']
    omega

end Wire

end JsonRules
