/-!
# Double-precision numbers

A double-precision number is kept as its 64-bit pattern: a sign bit above a 63-bit *magnitude*.
Read as a natural number, the magnitude is ordered as the absolute value it stands for, with the
infinities at `infinityMagnitude` and every NaN above them. Comparison is therefore arithmetic on
magnitudes, and a NaN keeps its payload because nothing but the pattern is stored.

`compare` and `equals` are the comparisons of IEEE 754: a NaN is comparable to nothing and the two
zeros are equal. Equality of patterns is the `=` of the type.
-/

namespace JsonRules

/-- A double-precision number, given by its bit pattern. -/
structure Binary64 where
  /-- One sign bit, eleven exponent bits and fifty-two fraction bits, the sign highest. -/
  bits : UInt64
deriving DecidableEq

namespace Binary64

/-- The place of the sign bit. -/
def signUnit : Nat := 0x8000000000000000

/-- The place of the lowest exponent bit, which is also the leading bit of a normal significand. -/
def exponentUnit : Nat := 0x10000000000000

/-- The magnitude of the two infinities: all exponent bits set and no fraction bit. -/
def infinityMagnitude : Nat := 0x7FF0000000000000

/-- The pattern without its sign bit. -/
def magnitude (x : Binary64) : Nat := x.bits.toNat % signUnit

/-- The sign bit. -/
def isNegative (x : Binary64) : Bool := decide (signUnit ≤ x.bits.toNat)

/-- The number with the given sign bit and magnitude. -/
def ofMagnitude (negative : Bool) (magnitude : Nat) : Binary64 :=
  ⟨UInt64.ofNat (magnitude + if negative then signUnit else 0)⟩

/-- The zero with the given sign. -/
def zero (negative : Bool) : Binary64 := ofMagnitude negative 0

/-- The infinity with the given sign. -/
def infinity (negative : Bool) : Binary64 := ofMagnitude negative infinityMagnitude

/-- The quiet NaN without payload, the result of an operation that has no value. -/
def nan : Binary64 := ofMagnitude false 0x7FF8000000000000

/-- Whether the pattern stands for no number. -/
def isNaN (x : Binary64) : Bool := decide (infinityMagnitude < x.magnitude)

/-- Whether the pattern is one of the infinities. -/
def isInfinite (x : Binary64) : Bool := decide (x.magnitude = infinityMagnitude)

/-- Whether the pattern stands for a real number. -/
def isFinite (x : Binary64) : Bool := decide (x.magnitude < infinityMagnitude)

/-- Whether the pattern is one of the zeros. -/
def isZero (x : Binary64) : Bool := decide (x.magnitude = 0)

/-- The magnitude with the sign applied. Of two numbers that are not NaN the smaller has the
smaller key, and the two zeros have the same. -/
def key (x : Binary64) : Int := if x.isNegative then -x.magnitude else x.magnitude

/-- The order of two numbers, and nothing if one of them is NaN. -/
protected def compare (x y : Binary64) : Option Ordering :=
  if x.isNaN || y.isNaN then none else some (Ord.compare x.key y.key)

/-- Numeric equality: NaN equals nothing, and the two zeros are equal. -/
def equals (x y : Binary64) : Bool := !x.isNaN && !y.isNaN && x.key == y.key

/-- The number with the opposite sign bit. -/
def neg (x : Binary64) : Binary64 := ofMagnitude (!x.isNegative) x.magnitude

/-- The integer significand of a finite number, whose absolute value is
`significand · 2 ^ exponent`. -/
def significand (x : Binary64) : Nat :=
  if x.magnitude < exponentUnit then x.magnitude
  else exponentUnit + x.magnitude % exponentUnit

/-- The exponent of two that goes with `significand`. -/
def exponent (x : Binary64) : Int :=
  if x.magnitude < exponentUnit then -1074 else (x.magnitude / exponentUnit : Nat) - 1075

/-- The significand with the sign applied. -/
def signedSignificand (x : Binary64) : Int :=
  if x.isNegative then -x.significand else x.significand

theorem magnitude_lt (x : Binary64) : x.magnitude < signUnit := Nat.mod_lt _ (by decide)

/-- The pattern of a number with a given sign and magnitude, as a natural number. -/
theorem toNat_bits_ofMagnitude (negative : Bool) {m : Nat} (h : m < signUnit) :
    (ofMagnitude negative m).bits.toNat = m + if negative then signUnit else 0 := by
  rw [signUnit] at h
  rw [ofMagnitude, UInt64.toNat_ofNat', signUnit]
  cases negative
  · rw [if_neg Bool.false_ne_true]; omega
  · rw [if_pos rfl]; omega

theorem magnitude_ofMagnitude (negative : Bool) {m : Nat} (h : m < signUnit) :
    (ofMagnitude negative m).magnitude = m := by
  rw [magnitude, toNat_bits_ofMagnitude negative h]
  rw [signUnit] at h ⊢
  split <;> omega

theorem isNegative_ofMagnitude (negative : Bool) {m : Nat} (h : m < signUnit) :
    (ofMagnitude negative m).isNegative = negative := by
  rw [isNegative, toNat_bits_ofMagnitude negative h]
  rw [signUnit] at h ⊢
  cases negative
  · rw [if_neg Bool.false_ne_true, decide_eq_false_iff_not]; omega
  · rw [if_pos rfl, decide_eq_true_iff]; omega

/-- A pattern is determined by its sign and its magnitude. -/
theorem ofMagnitude_isNegative_magnitude (x : Binary64) :
    ofMagnitude x.isNegative x.magnitude = x := by
  obtain ⟨bits⟩ := x
  have h := bits.toNat_lt
  have e : bits.toNat % signUnit + (if signUnit ≤ bits.toNat then signUnit else 0)
      = bits.toNat := by
    rw [signUnit]
    split <;> omega
  simp only [ofMagnitude, isNegative, magnitude, decide_eq_true_eq, e, UInt64.ofNat_toNat]

/-- Numeric equality is symmetric. -/
theorem equals_comm (x y : Binary64) : x.equals y = y.equals x := by
  have h : (x.key == y.key) = (y.key == x.key) := BEq.comm
  rw [equals, equals, h, Bool.and_comm (!x.isNaN)]

/-- A number equals itself exactly if it is not NaN. -/
theorem equals_self (x : Binary64) : x.equals x = !x.isNaN := by simp [equals]

end Binary64

end JsonRules
