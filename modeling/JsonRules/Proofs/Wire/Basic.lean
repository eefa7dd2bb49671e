import JsonRules.Wire.Basic
import Mathlib.Algebra.Group.Nat.Defs

/-!
# Reading back what was written

`Restores read bytes a` says that `read` takes `bytes` off the front of any byte string and returns
`a`, as long as there are fewer than `2 ^ 64` of them: no count is written in more than eight bytes.
It is proved along the structure of a writer and its reader, one part after the other
(`Restores.bind`), so it needs no bound on the counts themselves.

`Yields read P` says that whatever `read` returns has a property, no matter what bytes it is given.
-/

namespace JsonRules

namespace Wire

variable {α β : Type}

/-- A reader takes some bytes off the front of any byte string and returns a result. -/
def Restores (read : Reader α) (bytes : List UInt8) (a : α) : Prop :=
  bytes.length < 2 ^ (8 * countWidth) → ∀ rest, read (bytes ++ rest) = some (a, rest)

/-- All results of a reader have a property. -/
def Yields (read : Reader α) (P : α → Prop) : Prop :=
  ∀ bytes a rest, read bytes = some (a, rest) → P a

theorem reader_bind_eq_some_iff {x : Reader α} {f : α → Reader β} {bytes rest : List UInt8}
    {b : β} :
    (x >>= f) bytes = some (b, rest) ↔
      ∃ a behind, x bytes = some (a, behind) ∧ f a behind = some (b, rest) := by
  change (x bytes).bind (fun p => f p.1 p.2) = some (b, rest) ↔ _
  rw [Option.bind_eq_some_iff, Prod.exists]

/-! ## Readers one after another -/

theorem Restores.pure (a : α) : Restores (pure a) [] a := fun _ _ => rfl

theorem Restores.bind {x : Reader α} {f : α → Reader β} {bytes bytes' : List UInt8} {a : α} {b : β}
    (hx : Restores x bytes a) (hf : Restores (f a) bytes' b) :
    Restores (x >>= f) (bytes ++ bytes') b := by
  intro hlength rest
  rw [List.length_append] at hlength
  refine reader_bind_eq_some_iff.2 ⟨a, bytes' ++ rest, ?_, hf (by omega) rest⟩
  rw [List.append_assoc]
  exact hx (by omega) _

/-- What follows may read nothing more. -/
theorem Restores.bind_nil {x : Reader α} {f : α → Reader β} {bytes : List UInt8} {a : α} {b : β}
    (hx : Restores x bytes a) (hf : Restores (f a) [] b) : Restores (x >>= f) bytes b := by
  have h := hx.bind hf
  rwa [List.append_nil] at h

theorem Restores.map {x : Reader α} {bytes : List UInt8} {a : α} (hx : Restores x bytes a)
    (f : α → β) : Restores (x >>= fun a => Pure.pure (f a)) bytes (f a) :=
  hx.bind_nil (Restores.pure (f a))

theorem Yields.pure {P : α → Prop} {a : α} (h : P a) : Yields (pure a) P := by
  intro bytes b rest e
  obtain ⟨rfl, -⟩ := Prod.mk.inj (Option.some.inj e)
  exact h

theorem Yields.failure {P : α → Prop} : Yields failure P :=
  fun _ _ _ e => absurd e.symm (Option.some_ne_none _)

theorem Yields.bind {P : α → Prop} {Q : β → Prop} {x : Reader α} {f : α → Reader β}
    (hx : Yields x P) (hf : ∀ a, P a → Yields (f a) Q) : Yields (x >>= f) Q := by
  intro bytes b rest e
  obtain ⟨a, behind, ha, hb⟩ := reader_bind_eq_some_iff.1 e
  exact hf a (hx bytes a behind ha) behind b rest hb

theorem Yields.trivial (x : Reader α) : Yields x fun _ => True := fun _ _ _ _ => True.intro

/-! ## Numbers -/

theorem shiftRight_eq_zero {n k : Nat} (h : n < 2 ^ k) : n >>> k = 0 := by
  rw [Nat.shiftRight_eq_div_pow, Nat.div_eq_of_lt h]

theorem restores_fixed {count n : Nat} (h : n < 2 ^ (8 * count)) :
    Restores (readFixed count) (littleEndian count n) n :=
  fun _ => readFixed_littleEndian (shiftRight_eq_zero h)

/-- A number that fits the field it is written for is read back. -/
theorem restores_varint {width n : Nat} (hwidth : width = positionWidth ∨ width = countWidth)
    (h : n < 2 ^ (8 * width)) : Restores (readVarint width) (writeVarint n) n :=
  fun _ => readVarint_writeVarint hwidth (shiftRight_eq_zero h)

theorem restores_position {n : Nat} (h : n < 2 ^ (8 * positionWidth)) :
    Restores (readVarint positionWidth) (writeVarint n) n := restores_varint (.inl rfl) h

theorem restores_count {n : Nat} (h : n < 2 ^ (8 * countWidth)) :
    Restores (readVarint countWidth) (writeVarint n) n := restores_varint (.inr rfl) h

theorem length_writeVarint_pos (n : Nat) : 0 < (writeVarint n).length := by
  unfold writeVarint
  split
  · exact Nat.one_pos
  · split
    · exact Nat.succ_pos _
    · split <;> exact Nat.succ_pos _

/-- Bytes are determined by their count and by the number that they stand for. -/
theorem eq_of_ofLittleEndian_eq {a b : List UInt8} (hlength : a.length = b.length)
    (h : ofLittleEndian a = ofLittleEndian b) : a = b := by
  induction a generalizing b with
  | nil => exact (List.length_eq_zero_iff.1 hlength.symm).symm
  | cons x xs ih =>
    cases b with
    | nil => exact absurd hlength (by simp)
    | cons y ys =>
      rw [ofLittleEndian, ofLittleEndian] at h
      have hx := x.toNat_lt
      have hy := y.toNat_lt
      have hhead : x = y := UInt8.toNat_inj.1 (by omega)
      rw [hhead, ih (Nat.succ.inj hlength) (by omega)]

theorem ofLittleEndian_lt (bytes : List UInt8) : ofLittleEndian bytes < 2 ^ (8 * bytes.length) := by
  induction bytes with
  | nil => exact Nat.one_pos
  | cons b rest ih =>
    have hb := b.toNat_lt
    rw [ofLittleEndian, List.length_cons, Nat.mul_succ, Nat.pow_add]
    omega

theorem yields_bytes (count : Nat) :
    Yields (readBytes count) fun bytes => bytes.length = count := by
  intro bytes front rest e
  simp only [readBytes] at e
  split at e
  · obtain ⟨rfl, -⟩ := Prod.mk.inj (Option.some.inj e)
    assumption
  · exact absurd e.symm (Option.some_ne_none _)

theorem yields_fixed (count : Nat) : Yields (readFixed count) (· < 2 ^ (8 * count)) := by
  refine (yields_bytes count).bind fun bytes hbytes => .pure ?_
  exact hbytes ▸ ofLittleEndian_lt bytes

/-- No number is read that the field has no room for. -/
theorem yields_varint {width : Nat} (hwidth : 0 < width) :
    Yields (readVarint width) (· < 2 ^ (8 * width)) := by
  have hpow : ∀ {a b : Nat}, a ≤ b → 2 ^ (8 * a) ≤ 2 ^ (8 * b) := fun h =>
    Nat.pow_le_pow_right Nat.two_pos (Nat.mul_le_mul_left 8 h)
  refine (Yields.trivial readByte).bind ?_
  intro first _
  by_cases hfirst : first.toNat < 251
  · rw [if_pos hfirst]
    exact .pure (Nat.lt_of_lt_of_le first.toNat_lt (hpow hwidth))
  · rw [if_neg hfirst]
    cases markedWidth? first with
    | none => exact .failure
    | some count =>
      by_cases hcount : count ≤ width
      · simp only [if_pos hcount]
        intro bytes n rest e
        exact Nat.lt_of_lt_of_le (yields_fixed count bytes n rest e) (hpow hcount)
      · simp only [if_neg hcount]
        exact .failure

/-! ## Texts -/

theorem restores_bool (b : Bool) : Restores readBool (writeBool b) b := by
  cases b <;> exact fun _ _ => rfl

theorem toList_loop_eq (bytes : ByteArray) (i : Nat) (acc : List UInt8) :
    ByteArray.toList.loop bytes i acc = acc.reverse ++ bytes.data.toList.drop i := by
  fun_induction ByteArray.toList.loop bytes i acc with
  | case1 i acc hlt ih =>
    have hget : bytes.get! i = bytes.data.toList[i] := getElem!_pos bytes.data i hlt
    rw [ih, List.reverse_cons, List.append_assoc, hget, List.singleton_append,
      ← List.drop_eq_getElem_cons]
  | case2 i acc hge =>
    rw [List.drop_eq_nil_of_le (Nat.not_lt.1 hge), List.append_nil]

theorem toArray_toList (bytes : ByteArray) : (⟨bytes.toList.toArray⟩ : ByteArray) = bytes := by
  rw [ByteArray.toList, toList_loop_eq]
  rfl

theorem fromUTF8?_toUTF8 (s : String) : String.fromUTF8? s.toUTF8 = some s := by
  rw [String.fromUTF8?, String.toUTF8_eq_toByteArray, dif_pos s.isValidUTF8]
  rfl

theorem restores_bytes (bytes : List UInt8) : Restores (readBytes bytes.length) bytes bytes :=
  fun _ => readBytes_append bytes

theorem restores_text (s : String) : Restores readText (writeText s) s := by
  intro hlength
  have hcount : s.toUTF8.toList.length < 2 ^ (8 * countWidth) := by
    rw [writeText, List.length_append] at hlength
    omega
  refine ((restores_count hcount).bind ((restores_bytes _).bind_nil ?_)) hlength
  rw [toArray_toList, fromUTF8?_toUTF8]
  exact .pure s

theorem length_writeText_pos (s : String) : 0 < (writeText s).length := by
  rw [writeText, List.length_append]
  exact Nat.add_pos_left (length_writeVarint_pos _) _

/-! ## Options and lists -/

theorem restores_option {read : Reader α} {write : α → List UInt8} {element? : Option α}
    (h : ∀ element ∈ element?, Restores read (write element) element) :
    Restores (readOption read) (writeOption write element?) element? := by
  cases element? with
  | none => exact (restores_bool false).map fun _ => none
  | some element => exact (restores_bool true).bind ((h element rfl).map some)

theorem yields_option {read : Reader α} {P : α → Prop} (h : Yields read P) :
    Yields (readOption read) fun element? => ∀ element ∈ element?, P element := by
  refine (Yields.trivial readBool).bind ?_
  intro present _
  cases present with
  | true =>
    refine h.bind fun element helement => .pure ?_
    exact fun _ hmem => Option.mem_some_iff.1 hmem ▸ helement
  | false => exact .pure fun element hmem => absurd hmem (Option.not_mem_none element)

theorem restores_many {read : Reader α} {write : α → List UInt8} {elements : List α}
    (h : ∀ element ∈ elements, Restores read (write element) element) :
    Restores (readMany read elements.length) (elements.flatMap write) elements := by
  induction elements with
  | nil => exact .pure []
  | cons element rest ih =>
    rw [List.flatMap_cons]
    exact (h element List.mem_cons_self).bind
      ((ih fun e he => h e (List.mem_cons_of_mem _ he)).map (element :: ·))

theorem yields_many {read : Reader α} {P : α → Prop} (h : Yields read P) (count : Nat) :
    Yields (readMany read count) fun elements => ∀ element ∈ elements, P element := by
  induction count with
  | zero => exact .pure fun _ hmem => absurd hmem List.not_mem_nil
  | succ count ih =>
    refine h.bind fun element helement => ih.bind fun rest hrest => .pure ?_
    exact List.forall_mem_cons.2 ⟨helement, hrest⟩

/-- Elements that take at least a byte each are no more than the bytes that they take. -/
theorem length_le_length_flatMap {write : α → List UInt8} (hwrite : ∀ a, 0 < (write a).length)
    (elements : List α) : elements.length ≤ (elements.flatMap write).length := by
  induction elements with
  | nil => exact Nat.le_refl 0
  | cons element rest ih =>
    rw [List.flatMap_cons, List.length_append, List.length_cons, Nat.add_comm]
    exact Nat.add_le_add (hwrite element) ih

theorem length_le_length_flatMap_of_mem {write : α → List UInt8} {elements : List α} {a : α}
    (h : a ∈ elements) : (write a).length ≤ (elements.flatMap write).length := by
  rw [List.flatMap_def]
  exact (List.sublist_flatten_of_mem (List.mem_map_of_mem h)).length_le

/-- A list is read back if its elements are and take at least a byte each. -/
theorem restores_list {read : Reader α} {write : α → List UInt8} {elements : List α}
    (hwrite : ∀ a, 0 < (write a).length)
    (h : ∀ element ∈ elements, Restores read (write element) element) :
    Restores (readList read) (writeList write elements) elements := by
  intro hlength
  have hcount : elements.length < 2 ^ (8 * countWidth) := by
    have hle := length_le_length_flatMap hwrite elements
    rw [writeList, List.length_append] at hlength
    omega
  exact ((restores_count hcount).bind (restores_many h)) hlength

theorem yields_list {read : Reader α} {P : α → Prop} (h : Yields read P) :
    Yields (readList read) fun elements => ∀ element ∈ elements, P element :=
  (Yields.trivial _).bind fun count _ => yields_many h count

end Wire

end JsonRules
