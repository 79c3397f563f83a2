import Mathlib.Data.List.Infix

/-! Pieces that occur in a list one after the other, with anything between
them.  Taking each piece where it first occurs misses no arrangement. -/

universe u

namespace IronDirectory.Base.Pieces

variable {α : Type u} {last a s t rest : List α} {c : α} {pieces : List (List α)}

/-- The pieces occur in this order, and after them the list ends in `last`. -/
def Arranged (last : List α) : List (List α) → List α → Prop
  | [], s => last <:+ s
  | a :: pieces, s => ∃ x y, s = x ++ (a ++ y) ∧ Arranged last pieces y

structure FirstRest (a s rest : List α) : Prop where
  occurs : ∃ x, s = x ++ (a ++ rest)
  first : ∀ x y, s = x ++ (a ++ y) → y <:+ rest

theorem FirstRest.of_isPrefix (a rest : List α) : FirstRest a (a ++ rest) rest where
  occurs := ⟨[], rfl⟩
  first := by
    intro x y h
    have hlen := congrArg List.length h
    simp only [List.length_append] at hlen
    have hy : y <:+ a ++ rest := ⟨x ++ a, by rw [h, List.append_assoc]⟩
    exact List.suffix_of_suffix_length_le hy (List.suffix_append a rest) (by omega)

theorem eq_cons_of_not_isPrefix (hn : ¬ a <+: c :: s) {x y : List α}
    (h : c :: s = x ++ (a ++ y)) : ∃ x', x = c :: x' ∧ s = x' ++ (a ++ y) := by
  cases x with
  | nil => exact absurd ⟨y, h.symm⟩ hn
  | cons d x =>
    obtain ⟨rfl, rfl⟩ := List.cons.inj h
    exact ⟨x, rfl, rfl⟩

theorem FirstRest.cons (hn : ¬ a <+: c :: s) (h : FirstRest a s rest) :
    FirstRest a (c :: s) rest where
  occurs := by
    obtain ⟨x, rfl⟩ := h.occurs
    exact ⟨c :: x, rfl⟩
  first := by
    intro x y hxy
    obtain ⟨x', -, hs⟩ := eq_cons_of_not_isPrefix hn hxy
    exact h.first x' y hs

theorem Arranged.of_suffix (h : s <:+ t) (hs : Arranged last pieces s) :
    Arranged last pieces t := by
  obtain ⟨z, rfl⟩ := h
  cases pieces with
  | nil => exact List.IsSuffix.trans hs (List.suffix_append z s)
  | cons a pieces =>
    obtain ⟨x, y, rfl, hy⟩ := hs
    exact ⟨z ++ x, y, by rw [List.append_assoc], hy⟩

-- The exchange step: whatever follows another occurrence is a suffix of what
-- follows the first one.
theorem FirstRest.arranged_cons (h : FirstRest a s rest) :
    Arranged last (a :: pieces) s ↔ Arranged last pieces rest := by
  constructor
  · rintro ⟨x, y, hs, hy⟩
    exact hy.of_suffix (h.first x y hs)
  · intro hrest
    obtain ⟨x, hs⟩ := h.occurs
    exact ⟨x, rest, hs, hrest⟩

theorem arranged_iff : Arranged last pieces s ↔
    ∃ x xs, xs.length = pieces.length ∧
      s = x ++ (List.zipWith (· ++ ·) pieces xs).flatten ++ last := by
  induction pieces generalizing s with
  | nil =>
    constructor
    · rintro ⟨x, rfl⟩
      exact ⟨x, [], rfl, by simp⟩
    · rintro ⟨x, xs, -, rfl⟩
      exact ⟨x, by simp⟩
  | cons a pieces ih =>
    constructor
    · rintro ⟨x, y, rfl, hy⟩
      obtain ⟨x', xs, hlen, rfl⟩ := ih.mp hy
      exact ⟨x, x' :: xs, by simp [hlen], by simp⟩
    · rintro ⟨x, xs, hlen, rfl⟩
      cases xs with
      | nil => simp at hlen
      | cons x' xs =>
        refine ⟨x, _, ?_, ih.mpr ⟨x', xs, by simpa using hlen, rfl⟩⟩
        simp

theorem Arranged.length_le (h : Arranged last pieces s) :
    (pieces.flatten ++ last).length ≤ s.length := by
  induction pieces generalizing s with
  | nil => exact List.IsSuffix.length_le h
  | cons a pieces ih =>
    obtain ⟨x, y, rfl, hy⟩ := h
    have hle := ih hy
    simp only [List.flatten_cons, List.length_append] at hle ⊢
    omega

theorem arranged_iff_eq (hlen : s.length = (pieces.flatten ++ last).length) :
    Arranged last pieces s ↔ s = pieces.flatten ++ last := by
  induction pieces generalizing s with
  | nil =>
    constructor
    · intro h
      exact (List.IsSuffix.eq_of_length h hlen.symm).symm
    · rintro rfl
      exact List.suffix_refl _
  | cons a pieces ih =>
    constructor
    · rintro ⟨x, y, rfl, hy⟩
      have hle := hy.length_le
      simp only [List.flatten_cons, List.length_append] at hlen hle
      have hx : x = [] := List.length_eq_zero_iff.mp (by omega)
      have hylen : y.length = (pieces.flatten ++ last).length := by
        rw [List.length_append]
        omega
      rw [hx, (ih hylen).mp hy]
      simp
    · rintro rfl
      exact ⟨[], pieces.flatten ++ last, by simp, (ih rfl).mpr rfl⟩

end IronDirectory.Base.Pieces
