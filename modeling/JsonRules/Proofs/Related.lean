import Mathlib.Data.List.Forall2
import Mathlib.Data.Option.Basic

/-!
# Related options and lists

Two options are related if both are empty or their elements are related (`Option.Rel`), and two
lists are related if they are so element by element (`List.Forall₂`). Mapping a function that may
fail over an option or a list succeeds exactly with a result that the elements are related to by the
function.
-/

namespace JsonRules

variable {ε α β : Type} {R R' : α → β → Prop}

theorem option_rel_imp {x? : Option α} {y? : Option β} (hxy : Option.Rel R x? y?)
    (h : ∀ a, ∀ b ∈ y?, R a b → R' a b) : Option.Rel R' x? y? := by
  cases hxy with
  | none => exact .none
  | some hab => exact .some (h _ _ rfl hab)

theorem forall₂_imp {xs : List α} {ys : List β} (hxy : List.Forall₂ R xs ys)
    (h : ∀ a ∈ xs, ∀ b ∈ ys, R a b → R' a b) : List.Forall₂ R' xs ys := by
  induction hxy with
  | nil => exact .nil
  | cons hab _ ih =>
    refine .cons (h _ List.mem_cons_self _ List.mem_cons_self hab) (ih fun a ha b hb => ?_)
    exact h a (List.mem_cons_of_mem _ ha) b (List.mem_cons_of_mem _ hb)

theorem forall₂_comp {γ : Type} {S : β → γ → Prop} {xs : List α} {ys : List β} {zs : List γ}
    (hxy : List.Forall₂ R xs ys) (hyz : List.Forall₂ S ys zs) :
    List.Forall₂ (fun a c => ∃ b, R a b ∧ S b c) xs zs := by
  induction hxy generalizing zs with
  | nil =>
    cases hyz
    exact .nil
  | cons hab _ ih =>
    cases hyz with
    | cons hbc hrest => exact .cons ⟨_, hab, hbc⟩ (ih hrest)

theorem exists_option_rel {x? : Option α} (h : ∀ a ∈ x?, ∃ b, R a b) :
    ∃ y?, Option.Rel R x? y? := by
  cases x? with
  | none => exact ⟨none, .none⟩
  | some a =>
    obtain ⟨b, hab⟩ := h a rfl
    exact ⟨some b, .some hab⟩

theorem exists_forall₂ {xs : List α} (h : ∀ a ∈ xs, ∃ b, R a b) : ∃ ys, List.Forall₂ R xs ys := by
  induction xs with
  | nil => exact ⟨[], .nil⟩
  | cons a rest ih =>
    obtain ⟨b, hab⟩ := h a List.mem_cons_self
    obtain ⟨ys, hys⟩ := ih fun a ha => h a (List.mem_cons_of_mem _ ha)
    exact ⟨b :: ys, .cons hab hys⟩

theorem option_rel_map_right {γ : Type} {g : γ → β} {x? : Option α} {z? : Option γ}
    (hxz : Option.Rel (fun a c => R a (g c)) x? z?) : Option.Rel R x? (z?.map g) := by
  cases hxz with
  | none => exact .none
  | some hac => exact .some hac

theorem forall₂_toList {x? : Option α} {y? : Option β} (hxy : Option.Rel R x? y?) :
    List.Forall₂ R x?.toList y?.toList := by
  cases hxy with
  | none => exact .nil
  | some hab => exact .cons hab .nil

/-- Functions that agree on related elements map related options to the same option. -/
theorem option_map_eq_map {γ : Type} {f : α → γ} {g : β → γ} {x? : Option α} {y? : Option β}
    (hxy : Option.Rel (fun a b => f a = g b) x? y?) : x?.map f = y?.map g := by
  cases hxy with
  | none => rfl
  | some hab => exact congrArg some hab

/-- Functions that agree on related elements map related lists to the same list. -/
theorem list_map_eq_map {γ : Type} {f : α → γ} {g : β → γ} {xs : List α} {ys : List β}
    (hxy : List.Forall₂ (fun a b => f a = g b) xs ys) : xs.map f = ys.map g := by
  induction hxy with
  | nil => rfl
  | cons hab _ ih => rw [List.map_cons, List.map_cons, hab, ih]

theorem list_filterMap_eq_map {γ : Type} {f : α → Option γ} {g : β → γ} {xs : List α} {ys : List β}
    (hxy : List.Forall₂ (fun a b => f a = some (g b)) xs ys) : xs.filterMap f = ys.map g := by
  induction hxy with
  | nil => rfl
  | cons hab _ ih => rw [List.filterMap_cons_some hab, List.map_cons, ih]

theorem forall_of_option_rel {P : β → Prop} {x? : Option α} {y? : Option β}
    (hxy : Option.Rel R x? y?) (h : ∀ a ∈ x?, ∀ b, R a b → P b) : ∀ b ∈ y?, P b := by
  intro b hb
  cases hxy with
  | none => exact absurd hb (Option.not_mem_none b)
  | some hab => exact Option.mem_some_iff.1 hb ▸ h _ rfl _ hab

theorem exists_mem_right_of_forall₂ {xs : List α} {ys : List β} (hxy : List.Forall₂ R xs ys) {a : α}
    (ha : a ∈ xs) : ∃ b ∈ ys, R a b := by
  induction hxy with
  | nil => exact absurd ha List.not_mem_nil
  | @cons _ b _ _ hab _ ih =>
    rcases List.mem_cons.1 ha with rfl | ha
    · exact ⟨b, List.mem_cons_self, hab⟩
    · obtain ⟨c, hc, hac⟩ := ih ha
      exact ⟨c, List.mem_cons_of_mem _ hc, hac⟩

theorem exists_mem_left_of_forall₂ {xs : List α} {ys : List β} (hxy : List.Forall₂ R xs ys) {b : β}
    (hb : b ∈ ys) : ∃ a ∈ xs, R a b :=
  exists_mem_right_of_forall₂ hxy.flip hb

theorem forall_of_forall₂ {P : β → Prop} {xs : List α} {ys : List β} (hxy : List.Forall₂ R xs ys)
    (h : ∀ a ∈ xs, ∀ b, R a b → P b) : ∀ b ∈ ys, P b := by
  intro b hb
  obtain ⟨a, ha, hab⟩ := exists_mem_left_of_forall₂ hxy hb
  exact h a ha b hab

theorem forall_mem_iff_of_forall₂ {P : α → Prop} {Q : β → Prop} {xs : List α} {ys : List β}
    (hxy : List.Forall₂ (fun a b => P a ↔ Q b) xs ys) : (∀ a ∈ xs, P a) ↔ ∀ b ∈ ys, Q b := by
  induction hxy with
  | nil => simp
  | cons hab _ ih => rw [List.forall_mem_cons, List.forall_mem_cons, hab, ih]

theorem except_bind_eq_ok_iff {x : Except ε α} {g : α → Except ε β} {b : β} :
    x >>= g = .ok b ↔ ∃ a, x = .ok a ∧ g a = .ok b := by
  cases x <;> simp [bind, Except.bind]

theorem except_bind_eq_ok {x : Except ε α} {g : α → Except ε β} {a : α} {b : β} (hx : x = .ok a)
    (hg : g a = .ok b) : x >>= g = .ok b :=
  except_bind_eq_ok_iff.2 ⟨a, hx, hg⟩

variable {f : α → Except ε β}

theorem list_mapM_eq_ok_iff {xs : List α} {ys : List β} :
    xs.mapM f = .ok ys ↔ List.Forall₂ (fun x y => f x = .ok y) xs ys := by
  induction xs generalizing ys with
  | nil => cases ys <;> simp [pure, Except.pure]
  | cons x xs ih =>
    simp only [List.mapM_cons, except_bind_eq_ok_iff, ih, List.forall₂_cons_left_iff]
    constructor
    · rintro ⟨y, hy, rest, hrest, e⟩
      exact ⟨y, rest, hy, hrest, (Except.ok.inj e).symm⟩
    · rintro ⟨y, rest, hy, hrest, rfl⟩
      exact ⟨y, hy, rest, hrest, rfl⟩

theorem option_mapM_eq_ok_iff {x? : Option α} {y? : Option β} :
    x?.mapM f = .ok y? ↔ Option.Rel (fun x y => f x = .ok y) x? y? := by
  cases x? with
  | none => cases y? <;> simp [pure, Except.pure]
  | some x =>
    cases hx : f x <;> cases y? <;> simp [hx, Functor.map, Except.map]

end JsonRules
