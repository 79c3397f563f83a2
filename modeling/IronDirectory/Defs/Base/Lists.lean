import Mathlib.Data.List.Forall2
import Mathlib.Algebra.Order.BigOperators.Group.List
import Mathlib.Data.List.Infix
import Mathlib.Algebra.Order.Monoid.Canonical.Defs
import Mathlib.Algebra.Order.Ring.Nat

universe u v

namespace IronDirectory.Base.Lists

variable {α : Type u} {β : Type v} {R : α → β → Prop} {xs : List α} {ys : List β}

theorem exists_of_forall₂_mem (h : List.Forall₂ R xs ys) {y : β} (hy : y ∈ ys) :
    ∃ x ∈ xs, R x y := by
  induction h with
  | nil => simp at hy
  | cons hxy _ ih =>
    cases List.mem_cons.mp hy with
    | inl heq => exact ⟨_, List.mem_cons_self, heq ▸ hxy⟩
    | inr hmem =>
      obtain ⟨x, hx, hR⟩ := ih hmem
      exact ⟨x, List.mem_cons_of_mem _ hx, hR⟩

theorem forall₂_append_left_iff {xs' : List α} :
    List.Forall₂ R (xs ++ xs') ys ↔
      ∃ zs zs', List.Forall₂ R xs zs ∧ List.Forall₂ R xs' zs' ∧ ys = zs ++ zs' := by
  induction xs generalizing ys with
  | nil => simp
  | cons x xs ih =>
    constructor
    · rintro (_ | ⟨hx, h⟩)
      obtain ⟨zs, zs', hzs, hzs', rfl⟩ := ih.mp h
      exact ⟨_ :: zs, zs', .cons hx hzs, hzs', rfl⟩
    · rintro ⟨_, zs', _ | ⟨hx, hzs⟩, hzs', rfl⟩
      exact .cons hx (ih.mpr ⟨_, zs', hzs, hzs', rfl⟩)

theorem getElem?_set_cases {i j : Nat} {a b : α} (h : (xs.set i a)[j]? = some b) :
    (j = i ∧ b = a) ∨ (j ≠ i ∧ xs[j]? = some b) := by
  by_cases hij : j = i
  · subst hij
    rw [List.getElem?_set_self'] at h
    obtain ⟨_, -, rfl⟩ := Option.map_eq_some_iff.mp h
    exact .inl ⟨rfl, rfl⟩
  · rw [List.getElem?_set_ne (Ne.symm hij)] at h
    exact .inr ⟨hij, h⟩

theorem getElem?_concat_cases {j : Nat} {a b : α} (h : (xs ++ [a])[j]? = some b) :
    (j = xs.length ∧ b = a) ∨ xs[j]? = some b := by
  rw [List.getElem?_append] at h
  split at h
  · exact .inr h
  · next hlt =>
    rw [List.getElem?_singleton] at h
    split at h
    · cases h
      exact .inl ⟨by omega, rfl⟩
    · cases h

theorem forall₂_congr_left {γ : Type u} {T : γ → α → Prop} {S : γ → β → Prop} {zs : List γ}
    (h : List.Forall₂ T zs xs) (hiff : ∀ z x y, T z x → (S z y ↔ R x y)) :
    List.Forall₂ S zs ys ↔ List.Forall₂ R xs ys := by
  induction h generalizing ys with
  | nil => simp
  | cons hzx _ ih =>
    cases ys with
    | nil => simp
    | cons y ys => rw [List.forall₂_cons, List.forall₂_cons, ih, hiff _ _ y hzx]

theorem forall₂_eq_map_iff {P : α → Prop} {f : α → β}
    (hiff : ∀ x ∈ xs, ∀ y, R x y ↔ P x ∧ y = f x) :
    List.Forall₂ R xs ys ↔ (∀ x ∈ xs, P x) ∧ ys = xs.map f := by
  induction xs generalizing ys with
  | nil => simp
  | cons x xs ih =>
    obtain ⟨hx, hxs⟩ := List.forall_mem_cons.mp hiff
    cases ys with
    | nil => simp
    | cons y ys =>
      rw [List.forall₂_cons, hx, ih hxs, List.forall_mem_cons, List.map_cons, List.cons.injEq]
      exact and_and_and_comm

theorem exists_forall₂_map_iff {γ : Type u} {f : β → γ} {g : α → γ} :
    (∃ ys, List.Forall₂ R xs ys ∧ ys.map f = xs.map g) ↔ ∀ x ∈ xs, ∃ y, R x y ∧ f y = g x := by
  induction xs with
  | nil => simp
  | cons x xs ih =>
    rw [List.forall_mem_cons, ← ih]
    constructor
    · rintro ⟨_, _ | ⟨hxy, hys⟩, hmap⟩
      rw [List.map_cons, List.map_cons, List.cons.injEq] at hmap
      exact ⟨⟨_, hxy, hmap.1⟩, _, hys, hmap.2⟩
    · rintro ⟨⟨y, hxy, hy⟩, ys, hys, hmap⟩
      exact ⟨y :: ys, .cons hxy hys, by rw [List.map_cons, List.map_cons, hy, hmap]⟩

theorem sum_le_of_forall₂ {f : α → Nat} {g : β → Nat} (h : List.Forall₂ R xs ys)
    (hle : ∀ x y, R x y → g y ≤ f x) : (ys.map g).sum ≤ (xs.map f).sum := by
  induction h with
  | nil => simp
  | cons hxy _ ih =>
    simp only [List.map_cons, List.sum_cons]
    exact Nat.add_le_add (hle _ _ hxy) ih

theorem forall₂_of_sum_le {f : α → Nat} {g : β → Nat} (h : List.Forall₂ R xs ys)
    (hle : ∀ x y, R x y → g y ≤ f x) (hsum : (xs.map f).sum ≤ (ys.map g).sum) :
    List.Forall₂ (fun x y => R x y ∧ f x ≤ g y) xs ys := by
  induction h with
  | nil => exact .nil
  | cons hxy hrest ih =>
    have hhead := hle _ _ hxy
    have htail := sum_le_of_forall₂ hrest hle
    simp only [List.map_cons, List.sum_cons] at hsum
    exact .cons ⟨hxy, by omega⟩ (ih (by omega))

theorem fixed_of_onto {f : α → α} {size : α → Nat} (honto : ∀ x ∈ xs, ∃ y ∈ xs, f y = x)
    (hf : ∀ x ∈ xs, f x = x ∨ f (f x) = f x ∨ size (f x) < size x) : ∀ x ∈ xs, f x = x := by
  have hbound : ∀ x ∈ xs, size x ≤ (xs.map size).sum :=
    fun x hx => List.le_sum_of_mem (List.mem_map_of_mem hx)
  have hclimb : ∀ n, ∀ x ∈ xs, f x ≠ x → (xs.map size).sum < size x + n → False := by
    intro n
    induction n with
    | zero =>
      intro x hx _ hlt
      exact absurd (hbound x hx) (Nat.not_le.mpr hlt)
    | succ n ih =>
      intro x hx hmoves hlt
      obtain ⟨y, hy, rfl⟩ := honto x hx
      obtain hfixed | hfixed | hless := hf y hy
      · exact hmoves (congrArg f hfixed)
      · exact hmoves hfixed
      · refine ih y hy (fun hfixed => ?_) (by omega)
        rw [hfixed] at hless
        exact lt_irrefl _ hless
  intro x hx
  by_contra hmoves
  exact hclimb ((xs.map size).sum + 1) x hx hmoves (by omega)

theorem eq_of_perm_of_smaller {f g : α → β} {size : β → Nat} (h : (xs.map f).Perm (xs.map g))
    (hf : ∀ x ∈ xs, f x = g x ∨ size (f x) < size (g x)) : ∀ x ∈ xs, f x = g x := by
  have hsum := (h.map size).sum_nat
  rw [List.map_map, List.map_map] at hsum
  have hle : ∀ x ∈ xs, size (f x) ≤ size (g x) := by
    intro x hx
    obtain heq | hlt := hf x hx
    · rw [heq]
    · exact hlt.le
  intro x hx
  by_contra hne
  have hlt := (hf x hx).resolve_left hne
  exact absurd hsum (List.sum_lt_sum (size ∘ f) (size ∘ g) hle ⟨x, hx, hlt⟩).ne

theorem forall_mem_dropLast_flatten {P : α → Prop} {ls : List (List α)} (hne : ∀ l ∈ ls, l ≠ []) :
    (∀ x ∈ ls.flatten.dropLast, P x) ↔
      (∀ l ∈ ls, ∀ x ∈ l.dropLast, P x) ∧ ∀ l ∈ ls.dropLast, ∀ x ∈ l, P x := by
  induction ls with
  | nil => simp
  | cons l ls ih =>
    rw [List.forall_mem_cons] at hne
    cases ls with
    | nil => simp
    | cons m ls =>
      have hfl : (m :: ls).flatten ≠ [] := by
        have := hne.2 m List.mem_cons_self
        simp [this]
      have hdl : (l :: m :: ls).dropLast = l :: (m :: ls).dropLast :=
        List.dropLast_cons_of_ne_nil (by simp)
      rw [List.flatten_cons, List.dropLast_append_of_ne_nil hfl, List.forall_mem_append,
        ih hne.2, hdl]
      constructor
      · rintro ⟨hl, hls, hrest⟩
        refine ⟨List.forall_mem_cons.mpr ⟨?_, hls⟩, List.forall_mem_cons.mpr ⟨hl, hrest⟩⟩
        intro x hx
        exact hl x (List.mem_of_mem_dropLast hx)
      · rintro ⟨hls, hrest⟩
        rw [List.forall_mem_cons] at hls hrest
        exact ⟨hrest.1, hls.2, hrest.2⟩

theorem not_of_mem_dropLast {p : α → Bool} (hcount : xs.countP p ≤ 1) (h : xs ≠ [])
    (hlast : p (xs.getLast h) = true) : ∀ x ∈ xs.dropLast, p x = false := by
  have hsplit := List.dropLast_append_getLast h
  rw [← hsplit, List.countP_append, List.countP_singleton, if_pos hlast] at hcount
  have hzero : xs.dropLast.countP p = 0 := by omega
  intro x hx
  simpa using List.countP_eq_zero.mp hzero x hx

theorem countP_le_one_of_dropLast {p : α → Bool} (h : ∀ x ∈ xs.dropLast, p x = false) :
    xs.countP p ≤ 1 := by
  by_cases hne : xs = []
  · simp [hne]
  · have hzero : xs.dropLast.countP p = 0 := by
      rw [List.countP_eq_zero]
      intro x hx
      simp [h x hx]
    rw [← List.dropLast_append_getLast hne, List.countP_append, hzero, Nat.zero_add]
    exact List.countP_le_length

theorem length_filterMap_le {f g : α → Option β} (h : ∀ x ∈ xs, f x = none ∨ f x = g x) :
    (xs.filterMap f).length ≤ (xs.filterMap g).length := by
  induction xs with
  | nil => simp
  | cons x xs ih =>
    rw [List.forall_mem_cons] at h
    have hle := ih h.2
    rw [List.filterMap_cons, List.filterMap_cons]
    cases h.1 with
    | inl hnone =>
      rw [hnone]
      cases g x with
      | none => exact hle
      | some y => exact Nat.le_succ_of_le hle
    | inr heq =>
      rw [heq]
      cases g x with
      | none => exact hle
      | some y => exact Nat.succ_le_succ hle

theorem eq_of_length_filterMap {f g : α → Option β} (h : ∀ x ∈ xs, f x = none ∨ f x = g x)
    (hlen : (xs.filterMap f).length = (xs.filterMap g).length) : ∀ x ∈ xs, f x = g x := by
  induction xs with
  | nil => simp
  | cons x xs ih =>
    rw [List.forall_mem_cons] at h ⊢
    have hle := length_filterMap_le h.2
    rw [List.filterMap_cons, List.filterMap_cons] at hlen
    cases h.1 with
    | inl hnone =>
      rw [hnone] at hlen ⊢
      cases hg : g x with
      | none =>
        rw [hg] at hlen
        exact ⟨rfl, ih h.2 hlen⟩
      | some y =>
        rw [hg] at hlen
        simp only [List.length_cons] at hlen
        omega
    | inr heq =>
      rw [heq] at hlen
      refine ⟨heq, ih h.2 ?_⟩
      cases hg : g x with
      | none => rwa [hg] at hlen
      | some y =>
        rw [hg] at hlen
        exact Nat.succ.inj hlen

end IronDirectory.Base.Lists
