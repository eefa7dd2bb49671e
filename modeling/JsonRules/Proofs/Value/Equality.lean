import JsonRules.Proofs.Related
import JsonRules.Proofs.Value.Basic
import JsonRules.Proofs.Value.Number
import JsonRules.Value.Comparison

/-!
# Strict equality

Strict equality goes down two values side by side, and at the bottom of it are numbers: it is
symmetric because the equality of numbers is, a value equals itself unless it contains a NaN
(`strictEquals_self_iff`), and values without floats are equal only if they are the same
(`strictEquals_iff_eq`).

It is not transitive. Two integers too large for double precision may both equal one float and still
be different. This is the only exception: values that equal a third are equal if and only if they
have the same integers wherever both have integers (`strictEquals_trans_iff`).
-/

namespace JsonRules

namespace Value

/-! ## Parts of values -/

/-- A value is in another if it is that value or in an item or a member of it. -/
inductive Contains : Value → Value → Prop where
  | self (v : Value) : Contains v v
  | item {items : List Value} {v u : Value} (hv : v ∈ items) (h : Contains v u) :
      Contains (array items) u
  | member {members : List (String × Value)} {m : String × Value} {u : Value} (hm : m ∈ members)
      (h : Contains m.2 u) : Contains (object members) u

/-- `Aligned v w p q` says that there is a place where `p` is in `v` and `q` is in `w`. -/
inductive Aligned : Value → Value → Value → Value → Prop where
  | self (v w : Value) : Aligned v w v w
  | item {xs ys : List Value} {v w p q : Value} (hvw : (v, w) ∈ xs.zip ys) (h : Aligned v w p q) :
      Aligned (array xs) (array ys) p q
  | member {xs ys : List (String × Value)} {m n : String × Value} {p q : Value}
      (hmn : (m, n) ∈ xs.zip ys) (h : Aligned m.2 n.2 p q) : Aligned (object xs) (object ys) p q

theorem Aligned.contains {v w p q : Value} (h : Aligned v w p q) : v.Contains p ∧ w.Contains q := by
  induction h with
  | self v w => exact ⟨.self v, .self w⟩
  | item hvw _ ih =>
    obtain ⟨hv, hw⟩ := List.of_mem_zip hvw
    exact ⟨.item hv ih.1, .item hw ih.2⟩
  | member hmn _ ih =>
    obtain ⟨hm, hn⟩ := List.of_mem_zip hmn
    exact ⟨.member hm ih.1, .member hn ih.2⟩

/-! ## What equals a value of each kind -/

/-- The number that a value is. -/
def number? : Value → Option Number
  | int n => some (.int n)
  | float x => some (.float x)
  | _ => none

variable {a b c v w : Value}

theorem kind_of_number? {x : Number} (h : v.number? = some x) : v.kind = .number := by
  cases v with
  | int n => rfl
  | float y => rfl
  | _ => exact absurd h.symm (Option.some_ne_none x)

theorem number?_eq_some_int_iff {n : Int64} : v.number? = some (.int n) ↔ v = int n := by
  cases v <;> simp [number?]

theorem allStrictEqual_iff {xs ys : List Value} :
    allStrictEqual xs ys = true ↔ List.Forall₂ (fun v w => v.strictEquals w = true) xs ys := by
  induction xs generalizing ys with
  | nil => cases ys <;> simp [allStrictEqual]
  | cons v vs ih => cases ys <;> simp [allStrictEqual, ih]

theorem membersStrictEqual_iff {xs ys : List (String × Value)} :
    membersStrictEqual xs ys = true ↔
      List.Forall₂ (fun m n => m.1 = n.1 ∧ m.2.strictEquals n.2 = true) xs ys := by
  induction xs generalizing ys with
  | nil => cases ys <;> simp [membersStrictEqual]
  | cons m ms ih => cases ys <;> simp [membersStrictEqual, ih]

theorem strictEquals_null_iff : null.strictEquals w = true ↔ w = null := by
  cases w <;> simp [strictEquals]

theorem strictEquals_bool_iff {x : Bool} : (bool x).strictEquals w = true ↔ w = bool x := by
  cases w <;> simp [strictEquals, @eq_comm _ x]

theorem strictEquals_string_iff {s : String} : (string s).strictEquals w = true ↔ w = string s := by
  cases w <;> simp [strictEquals, @eq_comm _ s]

theorem strictEquals_number_iff {x : Number} (hv : v.number? = some x) :
    v.strictEquals w = true ↔ ∃ y, w.number? = some y ∧ x.equals y = true := by
  cases v with
  | int n =>
    obtain rfl := Option.some.inj hv
    cases w <;> simp [strictEquals, number?]
  | float y =>
    obtain rfl := Option.some.inj hv
    cases w <;> simp [strictEquals, number?]
  | _ => exact absurd hv.symm (Option.some_ne_none x)

theorem strictEquals_array_iff {xs : List Value} :
    (array xs).strictEquals w = true ↔
      ∃ ys, w = array ys ∧ List.Forall₂ (fun v w => v.strictEquals w = true) xs ys := by
  cases w <;> simp [strictEquals, allStrictEqual_iff]

theorem strictEquals_object_iff {xs : List (String × Value)} :
    (object xs).strictEquals w = true ↔
      ∃ ys, w = object ys ∧
        List.Forall₂ (fun m n => m.1 = n.1 ∧ m.2.strictEquals n.2 = true) xs ys := by
  cases w <;> simp [strictEquals, membersStrictEqual_iff]

/-- Induction on values with one case for the numbers of both kinds. -/
@[elab_as_elim]
theorem number_induction {motive : Value → Prop} (null : motive null) (bool : ∀ b, motive (bool b))
    (number : ∀ v x, v.number? = some x → motive v) (string : ∀ s, motive (string s))
    (array : ∀ items, (∀ v ∈ items, motive v) → motive (array items))
    (object : ∀ members, (∀ m ∈ members, motive m.2) → motive (object members)) (v : Value) :
    motive v :=
  induction null bool (fun n => number (int n) (.int n) rfl)
    (fun x => number (float x) (.float x) rfl) string array object v

theorem kind_eq_of_strictEquals (h : a.strictEquals b = true) : a.kind = b.kind := by
  induction a using number_induction with
  | null => rw [strictEquals_null_iff.1 h]
  | bool x => rw [strictEquals_bool_iff.1 h]
  | number a x hx =>
    obtain ⟨y, hy, -⟩ := (strictEquals_number_iff hx).1 h
    exact (kind_of_number? hx).trans (kind_of_number? hy).symm
  | string s => rw [strictEquals_string_iff.1 h]
  | array xs =>
    obtain ⟨ys, rfl, -⟩ := strictEquals_array_iff.1 h
    rfl
  | object xs =>
    obtain ⟨ys, rfl, -⟩ := strictEquals_object_iff.1 h
    rfl

/-! ## Symmetry and identity -/

theorem strictEquals_symm (h : a.strictEquals b = true) : b.strictEquals a = true := by
  induction a using number_induction generalizing b with
  | null =>
    obtain rfl := strictEquals_null_iff.1 h
    exact h
  | bool x =>
    obtain rfl := strictEquals_bool_iff.1 h
    exact h
  | number a x hx =>
    obtain ⟨y, hy, hxy⟩ := (strictEquals_number_iff hx).1 h
    exact (strictEquals_number_iff hy).2 ⟨x, hx, Number.equals_comm x y ▸ hxy⟩
  | string s =>
    obtain rfl := strictEquals_string_iff.1 h
    exact h
  | array xs ih =>
    obtain ⟨ys, rfl, hxy⟩ := strictEquals_array_iff.1 h
    refine strictEquals_array_iff.2 ⟨xs, rfl, forall₂_imp hxy.flip ?_⟩
    intro w _ v hv hvw
    exact ih v hv hvw
  | object xs ih =>
    obtain ⟨ys, rfl, hxy⟩ := strictEquals_object_iff.1 h
    refine strictEquals_object_iff.2 ⟨xs, rfl, forall₂_imp hxy.flip ?_⟩
    rintro n _ m hm ⟨hkey, hmn⟩
    exact ⟨hkey.symm, ih m hm hmn⟩

theorem strictEquals_comm (a b : Value) : a.strictEquals b = b.strictEquals a :=
  Bool.eq_iff_iff.2 ⟨strictEquals_symm, strictEquals_symm⟩

/-- A value equals itself unless there is a NaN in it. -/
theorem strictEquals_self_iff :
    a.strictEquals a = true ↔ ∀ x, a.Contains (float x) → x.isNaN = false := by
  induction a with
  | null =>
    refine iff_of_true (strictEquals_null_iff.2 rfl) ?_
    rintro x ⟨⟩
  | bool b =>
    refine iff_of_true (strictEquals_bool_iff.2 rfl) ?_
    rintro x ⟨⟩
  | int n =>
    refine iff_of_true ((strictEquals_number_iff rfl).2 ⟨_, rfl, Number.equals_int_iff.2 rfl⟩) ?_
    rintro x ⟨⟩
  | float y =>
    have hself : (Number.float y).equals (.float y) = true ↔ y.isNaN = false := by
      rw [Number.equals_iff_toBinary64, Number.toBinary64, Binary64.equals_self]
      simp
    rw [strictEquals, hself]
    constructor
    · rintro h x ⟨⟩
      exact h
    · exact fun h => h y (.self _)
  | string s =>
    refine iff_of_true (strictEquals_string_iff.2 rfl) ?_
    rintro x ⟨⟩
  | array xs ih =>
    rw [strictEquals, allStrictEqual_iff, List.forall₂_same]
    constructor
    · intro h x hx
      cases hx with
      | item hv hx => exact (ih _ hv).1 (h _ hv) x hx
    · exact fun h v hv => (ih v hv).2 fun x hx => h x (.item hv hx)
  | object xs ih =>
    rw [strictEquals, membersStrictEqual_iff, List.forall₂_same]
    constructor
    · intro h x hx
      cases hx with
      | member hm hx => exact (ih _ hm).1 (h _ hm).2 x hx
    · exact fun h m hm => ⟨rfl, (ih m hm).2 fun x hx => h x (.member hm hx)⟩

/-- Values without floats are equal only to themselves. -/
theorem strictEquals_iff_eq (ha : ∀ x, ¬ a.Contains (float x)) (hb : ∀ x, ¬ b.Contains (float x)) :
    a.strictEquals b = true ↔ a = b := by
  constructor
  · intro h
    induction a generalizing b with
    | null => exact (strictEquals_null_iff.1 h).symm
    | bool x => exact (strictEquals_bool_iff.1 h).symm
    | int n =>
      obtain ⟨y, hy, hny⟩ := (strictEquals_number_iff rfl).1 h
      cases b with
      | int m =>
        obtain rfl := Option.some.inj hy
        rw [Number.equals_int_iff.1 hny]
      | float x => exact absurd (.self _) (hb x)
      | _ => exact absurd hy.symm (Option.some_ne_none y)
    | float x => exact absurd (.self _) (ha x)
    | string s => exact (strictEquals_string_iff.1 h).symm
    | array xs ih =>
      obtain ⟨ys, rfl, hxy⟩ := strictEquals_array_iff.1 h
      have heq : List.Forall₂ (· = ·) xs ys := by
        refine forall₂_imp hxy fun v hv w hw hvw => ih v hv (fun x hx => ?_) (fun x hx => ?_) hvw
        · exact ha x (.item hv hx)
        · exact hb x (.item hw hx)
      rw [List.forall₂_eq_eq_eq.le _ _ heq]
    | object xs ih =>
      obtain ⟨ys, rfl, hxy⟩ := strictEquals_object_iff.1 h
      have heq : List.Forall₂ (· = ·) xs ys := by
        refine forall₂_imp hxy fun m hm n hn hmn => Prod.ext hmn.1 ?_
        refine ih m hm (fun x hx => ?_) (fun x hx => ?_) hmn.2
        · exact ha x (.member hm hx)
        · exact hb x (.member hn hx)
      rw [List.forall₂_eq_eq_eq.le _ _ heq]
  · rintro rfl
    exact strictEquals_self_iff.2 fun x hx => absurd hx (ha x)

/-! ## Values that equal a third -/

/-- What stands in the same place in two values is equal to one and the same part of a third value
that both are equal to. -/
theorem Aligned.exists_between {v w p q u : Value} (h : Aligned v w p q)
    (hvu : v.strictEquals u = true) (huw : u.strictEquals w = true) :
    ∃ r, p.strictEquals r = true ∧ r.strictEquals q = true := by
  induction h generalizing u with
  | self v w => exact ⟨u, hvu, huw⟩
  | item hvw _ ih =>
    obtain ⟨us, rfl, hxu⟩ := strictEquals_array_iff.1 hvu
    obtain ⟨_, ⟨⟩, huy⟩ := strictEquals_array_iff.1 huw
    obtain ⟨r, hvr, hrw⟩ := List.forall₂_zip (forall₂_comp hxu huy) hvw
    exact ih hvr hrw
  | member hmn _ ih =>
    obtain ⟨us, rfl, hxu⟩ := strictEquals_object_iff.1 hvu
    obtain ⟨_, ⟨⟩, huy⟩ := strictEquals_object_iff.1 huw
    obtain ⟨r, hmr, hrn⟩ := List.forall₂_zip (forall₂_comp hxu huy) hmn
    exact ih hmr.2 hrn.2

/-- Equal values have equal parts in the same places. -/
theorem Aligned.strictEquals {v w p q : Value} (h : Aligned v w p q)
    (hvw : v.strictEquals w = true) : p.strictEquals q = true := by
  induction h with
  | self v w => exact hvw
  | item hmem _ ih =>
    obtain ⟨_, ⟨⟩, hxy⟩ := strictEquals_array_iff.1 hvw
    exact ih (List.forall₂_zip hxy hmem)
  | member hmem _ ih =>
    obtain ⟨_, ⟨⟩, hxy⟩ := strictEquals_object_iff.1 hvw
    exact ih (List.forall₂_zip hxy hmem).2

/-- Two values that equal a third are equal if they have the same integers in the same places. -/
theorem strictEquals_of_aligned (hab : a.strictEquals b = true) (hbc : b.strictEquals c = true)
    (hint : ∀ m n, Aligned a c (int m) (int n) → m = n) : a.strictEquals c = true := by
  induction a using number_induction generalizing b c with
  | null =>
    obtain rfl := strictEquals_null_iff.1 hab
    exact hbc
  | bool x =>
    obtain rfl := strictEquals_bool_iff.1 hab
    exact hbc
  | number a x hx =>
    obtain ⟨y, hy, hxy⟩ := (strictEquals_number_iff hx).1 hab
    obtain ⟨z, hz, hyz⟩ := (strictEquals_number_iff hy).1 hbc
    refine (strictEquals_number_iff hx).2 ⟨z, hz, (Number.equals_trans_iff hxy hyz).2 ?_⟩
    rintro m n rfl rfl
    obtain rfl := number?_eq_some_int_iff.1 hx
    obtain rfl := number?_eq_some_int_iff.1 hz
    exact hint m n (.self _ _)
  | string s =>
    obtain rfl := strictEquals_string_iff.1 hab
    exact hbc
  | array xs ih =>
    obtain ⟨ys, rfl, hxy⟩ := strictEquals_array_iff.1 hab
    obtain ⟨zs, rfl, hyz⟩ := strictEquals_array_iff.1 hbc
    have hxz := forall₂_comp hxy hyz
    refine strictEquals_array_iff.2 ⟨zs, rfl, List.forall₂_iff_zip.2 ⟨hxz.length_eq, ?_⟩⟩
    intro v w hvw
    obtain ⟨u, hvu, huw⟩ := List.forall₂_zip hxz hvw
    exact ih v (List.of_mem_zip hvw).1 hvu huw fun m n h => hint m n (.item hvw h)
  | object xs ih =>
    obtain ⟨ys, rfl, hxy⟩ := strictEquals_object_iff.1 hab
    obtain ⟨zs, rfl, hyz⟩ := strictEquals_object_iff.1 hbc
    have hxz := forall₂_comp hxy hyz
    refine strictEquals_object_iff.2 ⟨zs, rfl, List.forall₂_iff_zip.2 ⟨hxz.length_eq, ?_⟩⟩
    intro p r hpr
    obtain ⟨q, hpq, hqr⟩ := List.forall₂_zip hxz hpr
    refine ⟨hpq.1.trans hqr.1, ?_⟩
    exact ih p (List.of_mem_zip hpr).1 hpq.2 hqr.2 fun m n h => hint m n (.member hpr h)

/-- Two values that equal a third are equal if and only if they have the same integers wherever both
have integers. They always are if the integers in them are no larger than `2 ^ 53`. -/
theorem strictEquals_trans_iff (hab : a.strictEquals b = true) (hbc : b.strictEquals c = true) :
    (a.strictEquals c = true ↔ ∀ m n, Aligned a c (int m) (int n) → m = n) ∧
      ((∀ n, a.Contains (int n) ∨ c.Contains (int n) → n.toInt.natAbs ≤ 2 ^ 53) →
        a.strictEquals c = true) := by
  refine ⟨⟨fun hac m n h => ?_, strictEquals_of_aligned hab hbc⟩, fun hsmall => ?_⟩
  · exact Number.equals_int_iff.1 (h.strictEquals hac)
  · refine strictEquals_of_aligned hab hbc fun m n h => ?_
    obtain ⟨r, hmr, hrn⟩ := h.exists_between hab hbc
    obtain ⟨x, hx, hmx⟩ := (strictEquals_number_iff rfl).1 hmr
    obtain ⟨_, ⟨⟩, hxn⟩ := (strictEquals_number_iff hx).1 hrn
    have hm := hsmall m (.inl h.contains.1)
    have hn := hsmall n (.inr h.contains.2)
    exact Number.eq_of_equals_of_equals hm hn hmx hxn

/-- Two prices, the first of them not a number of double precision. -/
def prices : Value := array [int 9007199254740993, object [("net", int 2)]]

/-- The prices in double precision. -/
def roundedPrices : Value :=
  array [float ⟨0x4340000000000000⟩, object [("net", float ⟨0x4000000000000000⟩)]]

/-- The prices with only one of them in double precision. -/
def mixedPrices : Value :=
  array [int 9007199254740993, object [("net", float ⟨0x4000000000000000⟩)]]

theorem strictEquals_trans_iff_prices :
    prices.strictEquals roundedPrices = true ∧ roundedPrices.strictEquals mixedPrices = true ∧
      prices.strictEquals mixedPrices = true := by
  have hrounded : prices.strictEquals roundedPrices = true := by decide
  have hmixed : roundedPrices.strictEquals mixedPrices = true := by decide
  refine ⟨hrounded, hmixed, (strictEquals_trans_iff hrounded hmixed).1.2 ?_⟩
  intro m n h
  rcases h with _ | ⟨hvw, h⟩
  simp only [List.zip_cons_cons, List.zip_nil_left, List.mem_cons, List.not_mem_nil, or_false,
    Prod.mk.injEq] at hvw
  rcases hvw with ⟨rfl, rfl⟩ | ⟨rfl, rfl⟩
  · cases h
    rfl
  · rcases h with _ | _ | ⟨hmn, h⟩
    simp only [List.zip_cons_cons, List.zip_nil_left, List.mem_cons, List.not_mem_nil, or_false,
      Prod.mk.injEq] at hmn
    obtain ⟨rfl, rfl⟩ := hmn
    cases h

/-- The integers `2 ^ 53` and `2 ^ 53 + 1` both equal the float `2 ^ 53`, but not each other. -/
theorem strictEquals_not_trans :
    ¬ ∀ a b c : Value, (∀ x, a.Contains (float x) → x.isNaN = false) →
      (∀ x, b.Contains (float x) → x.isNaN = false) →
      (∀ x, c.Contains (float x) → x.isNaN = false) →
      a.strictEquals b = true → b.strictEquals c = true → a.strictEquals c = true := by
  intro h
  have hac := h (int 9007199254740993) (float ⟨0x4340000000000000⟩) (int 9007199254740992)
    (strictEquals_self_iff.1 (by decide)) (strictEquals_self_iff.1 (by decide))
    (strictEquals_self_iff.1 (by decide)) (by decide) (by decide)
  exact absurd hac (by decide)

end Value

end JsonRules
