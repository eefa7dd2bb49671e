import JsonRules.Json.Reader
import Mathlib.Data.List.Basic

/-!
# Trees that are read

Whatever text a tree is read from, its floats are finite, its integers have at most 64 bits with or
without a sign, and the members of its objects were collected from entries. So a property of trees
that is kept by building trees in these ways holds of all trees that are read
(`ClosedUnderReading.of_readWithin`).
-/

namespace JsonRules

namespace Json

/-- A property of trees that is kept by everything that the reader builds trees by. -/
structure ClosedUnderReading (P : Json → Prop) : Prop where
  null : P null
  bool (b : Bool) : P (bool b)
  integer {n : Int} (hlow : Int64.minValue.toInt ≤ n) (hhigh : n < UInt64.size) : P (integer n)
  decimal {x : Binary64} (h : x.isFinite = true) : P (decimal x)
  string (s : String) : P (string s)
  array {items : List Json} (h : ∀ j ∈ items, P j) : P (array items)
  object {entries : List (String × Json)} (h : ∀ e ∈ entries, P e.2) :
    P (object (Members.ofList entries))

namespace ClosedUnderReading

variable {P : Json → Prop} (hP : ClosedUnderReading P) {j : Json} {cs rest : List Char}

include hP

theorem of_ofDecimal? {negative : Bool} {d : Decimal} (h : ofDecimal? negative d = some j) :
    P j := by
  unfold ofDecimal? at h
  dsimp only at h
  split at h
  · rename_i hfinite
    exact Option.some.inj h ▸ hP.decimal hfinite
  · exact absurd h.symm (Option.some_ne_none j)

theorem of_ofInteger? {negative : Bool} {n : Nat} (h : ofInteger? negative n = some j) : P j := by
  have hmin : Int64.minValue.toInt ≤ 0 := by decide
  unfold ofInteger? at h
  split at h
  · split at h
    · rename_i hrange
      have hhigh : -(n : Int) < UInt64.size := by
        have := UInt64.size
        omega
      exact Option.some.inj h ▸ hP.integer hrange.2 hhigh
    · exact hP.of_ofDecimal? h
  · split at h
    · rename_i hlt
      exact Option.some.inj h ▸ hP.integer (by omega) (by exact_mod_cast hlt)
    · exact hP.of_ofDecimal? h

theorem of_readUnsigned {negative : Bool} (h : readUnsigned negative cs = some (j, rest)) :
    P j := by
  unfold readUnsigned at h
  dsimp only at h
  split at h
  · obtain ⟨⟨fraction?, rest'⟩, -, h⟩ := Option.bind_eq_some_iff.1 h
    obtain ⟨⟨exponent?, rest''⟩, -, h⟩ := Option.bind_eq_some_iff.1 h
    obtain ⟨number, hparts, h⟩ := Option.bind_eq_some_iff.1 h
    obtain ⟨rfl, -⟩ := Prod.mk.inj (Option.some.inj h)
    unfold ofParts? at hparts
    split at hparts
    · exact hP.of_ofInteger? hparts
    · exact hP.of_ofDecimal? hparts
  · exact absurd h.symm (Option.some_ne_none _)

theorem of_readScalar (h : readScalar cs = some (j, rest)) : P j := by
  unfold readScalar at h
  split at h
  · obtain ⟨rfl, -⟩ := Prod.mk.inj (Option.some.inj h)
    exact hP.null
  · obtain ⟨rfl, -⟩ := Prod.mk.inj (Option.some.inj h)
    exact hP.bool true
  · obtain ⟨rfl, -⟩ := Prod.mk.inj (Option.some.inj h)
    exact hP.bool false
  · obtain ⟨⟨text, rest'⟩, -, h⟩ := Option.map_eq_some_iff.1 h
    obtain ⟨rfl, -⟩ := Prod.mk.inj h
    exact hP.string _
  · exact hP.of_readUnsigned h
  · exact hP.of_readUnsigned h

omit hP in
/-- All elements of a list that is read were read as elements. -/
theorem forall_of_readElements {α : Type} {Q : α → Prop} {close : Char}
    {readElement : List Char → Option (α × List Char)}
    (hQ : ∀ {cs a rest}, readElement cs = some (a, rest) → Q a) {fuel : Nat} {elements : List α}
    (h : readElements close readElement fuel cs = some (elements, rest)) :
    ∀ a ∈ elements, Q a := by
  induction fuel generalizing cs elements rest with
  | zero => exact absurd h.symm (Option.some_ne_none _)
  | succ fuel ih =>
    unfold readElements at h
    obtain ⟨⟨first, rest'⟩, hfirst, h⟩ := Option.bind_eq_some_iff.1 h
    dsimp only at h
    split at h
    · exact absurd h.symm (Option.some_ne_none _)
    · split at h
      · obtain ⟨⟨others, rest''⟩, hothers, h⟩ := Option.bind_eq_some_iff.1 h
        obtain ⟨rfl, -⟩ := Prod.mk.inj (Option.some.inj h)
        exact List.forall_mem_cons.2 ⟨hQ hfirst, ih hothers⟩
      · split at h
        · obtain ⟨rfl, -⟩ := Prod.mk.inj (Option.some.inj h)
          exact List.forall_mem_singleton.2 (hQ hfirst)
        · exact absurd h.symm (Option.some_ne_none _)

omit hP in
theorem forall_of_readList {α : Type} {Q : α → Prop} {close : Char}
    {readElement : List Char → Option (α × List Char)}
    (hQ : ∀ {cs a rest}, readElement cs = some (a, rest) → Q a) {elements : List α}
    (h : readList close readElement cs = some (elements, rest)) : ∀ a ∈ elements, Q a := by
  unfold readList at h
  split at h
  · exact absurd h.symm (Option.some_ne_none _)
  · split at h
    · obtain ⟨rfl, -⟩ := Prod.mk.inj (Option.some.inj h)
      exact fun a ha => absurd ha List.not_mem_nil
    · exact forall_of_readElements hQ h

omit hP in
theorem of_readMember {Q : Json → Prop} {readValue : List Char → Option (Json × List Char)}
    (hQ : ∀ {cs j rest}, readValue cs = some (j, rest) → Q j) {m : String × Json}
    (h : readMember readValue cs = some (m, rest)) : Q m.2 := by
  unfold readMember at h
  split at h
  · obtain ⟨⟨key, rest'⟩, -, h⟩ := Option.bind_eq_some_iff.1 h
    dsimp only at h
    split at h
    · obtain ⟨⟨value, rest''⟩, hvalue, h⟩ := Option.bind_eq_some_iff.1 h
      obtain ⟨rfl, -⟩ := Prod.mk.inj (Option.some.inj h)
      exact hQ hvalue
    · exact absurd h.symm (Option.some_ne_none _)
  · exact absurd h.symm (Option.some_ne_none _)

theorem of_readWithin {nesting : Nat} (h : readWithin nesting cs = some (j, rest)) : P j := by
  -- every array and every object takes one level of nesting from what is inside it
  induction nesting generalizing cs j rest with
  | zero => exact hP.of_readScalar (by rwa [readWithin] at h)
  | succ nesting ih =>
    rw [readWithin.eq_def] at h
    split at h
    · rename_i heq
      exact absurd heq (Nat.succ_ne_zero nesting)
    · rename_i n tail heq
      obtain rfl : nesting = n := Nat.succ.inj heq
      obtain ⟨⟨items, rest'⟩, hitems, h⟩ := Option.map_eq_some_iff.1 h
      obtain ⟨rfl, -⟩ := Prod.mk.inj h
      exact hP.array (forall_of_readList ih hitems)
    · rename_i n tail heq
      obtain rfl : nesting = n := Nat.succ.inj heq
      obtain ⟨⟨entries, rest'⟩, hentries, h⟩ := Option.map_eq_some_iff.1 h
      obtain ⟨rfl, -⟩ := Prod.mk.inj h
      exact hP.object (forall_of_readList (of_readMember ih) hentries)
    · exact hP.of_readScalar h

/-- The property holds of the tree of any text that has one. -/
theorem of_read? {text : String} (h : read? text = some j) : P j := by
  obtain ⟨⟨tree, rest'⟩, htree, h⟩ := Option.bind_eq_some_iff.1 h
  dsimp only at h
  split at h
  · exact Option.some.inj h ▸ hP.of_readWithin htree
  · exact absurd h.symm (Option.some_ne_none j)

end ClosedUnderReading

end Json

end JsonRules
