import Mathlib.Data.Set.Disjoint
import Mathlib.Logic.Function.Basic

/-! Indexes derived from a table.  Every row contributes a set of index keys,
and an index is exact when it holds the keys its rows contribute and no
others.  `update` replaces one row, drops some index keys and adds the keys of
the new row. -/

universe u v w

namespace IronDirectory.Base.DerivedIndex

variable {K : Type u} {X : Type v} {I : Type w}

def rowKeys (derive : X → Set I) (row : Option X) : Set I :=
  {i | ∃ x, row = some x ∧ i ∈ derive x}

def tableKeys (derive : X → Set I) (table : K → Option X) : Set I :=
  {i | ∃ k, i ∈ rowKeys derive (table k)}

def Exact (derive : X → Set I) (table : K → Option X) (index : Set I) : Prop :=
  index = tableKeys derive table

@[simp] theorem rowKeys_none (derive : X → Set I) : rowKeys derive none = ∅ := by
  ext i
  simp [rowKeys]

@[simp] theorem rowKeys_some (derive : X → Set I) (x : X) :
    rowKeys derive (some x) = derive x := by
  ext i
  simp [rowKeys]

def otherKeys (derive : X → Set I) (table : K → Option X) (k : K) : Set I :=
  {i | ∃ k', k' ≠ k ∧ i ∈ rowKeys derive (table k')}

theorem mem_tableKeys_iff {derive : X → Set I} {table : K → Option X} (k : K) {i : I} :
    i ∈ tableKeys derive table ↔ i ∈ rowKeys derive (table k) ∨ i ∈ otherKeys derive table k := by
  constructor
  · intro ⟨k', hk'⟩
    by_cases hkk : k' = k
    · exact .inl (hkk ▸ hk')
    · exact .inr ⟨k', hkk, hk'⟩
  · intro h
    cases h with
    | inl h => exact ⟨k, h⟩
    | inr h =>
      obtain ⟨k', -, hk'⟩ := h
      exact ⟨k', hk'⟩

section Update

variable [DecidableEq K] {derive : X → Set I} {table : K → Option X} {index dropped : Set I}
  {k : K} {row : Option X}

theorem otherKeys_update : otherKeys derive (Function.update table k row) k =
    otherKeys derive table k := by
  ext i
  refine exists_congr fun k' => and_congr_right fun hne => ?_
  rw [Function.update_of_ne hne]

theorem mem_tableKeys_update {i : I} : i ∈ tableKeys derive (Function.update table k row) ↔
    i ∈ rowKeys derive row ∨ i ∈ otherKeys derive table k := by
  rw [mem_tableKeys_iff k, Function.update_self, otherKeys_update]

theorem Exact.update_subset_iff (h : Exact derive table index) :
    (index \ dropped) ∪ rowKeys derive row ⊆ tableKeys derive (Function.update table k row) ↔
      ∀ i ∈ rowKeys derive (table k),
        i ∈ dropped ∨ i ∈ rowKeys derive row ∨ i ∈ otherKeys derive table k := by
  constructor
  · intro hsub i hi
    by_cases hd : i ∈ dropped
    · exact .inl hd
    · have hidx : i ∈ index := by
        rw [h]
        exact ⟨k, hi⟩
      exact .inr (mem_tableKeys_update.mp (hsub (.inl ⟨hidx, hd⟩)))
  · intro hcov i hi
    apply mem_tableKeys_update.mpr
    cases hi with
    | inr hrow => exact .inl hrow
    | inl hkept =>
      obtain ⟨hidx, hd⟩ := hkept
      rw [h, mem_tableKeys_iff k] at hidx
      cases hidx with
      | inl hi => exact (hcov i hi).resolve_left hd
      | inr hi => exact .inr hi

theorem Exact.subset_update_iff (h : Exact derive table index) :
    tableKeys derive (Function.update table k row) ⊆ (index \ dropped) ∪ rowKeys derive row ↔
      ∀ i ∈ otherKeys derive table k, i ∈ dropped → i ∈ rowKeys derive row := by
  constructor
  · intro hsub i hi hd
    cases hsub (mem_tableKeys_update.mpr (.inr hi)) with
    | inl hkept => exact absurd hd hkept.2
    | inr hrow => exact hrow
  · intro hspare i hi
    cases mem_tableKeys_update.mp hi with
    | inl hrow => exact .inr hrow
    | inr hother =>
      by_cases hd : i ∈ dropped
      · exact .inr (hspare i hother hd)
      · refine .inl ⟨?_, hd⟩
        rw [h, mem_tableKeys_iff k]
        exact .inr hother

theorem Exact.update_iff (h : Exact derive table index) :
    Exact derive (Function.update table k row) ((index \ dropped) ∪ rowKeys derive row) ↔
      (∀ i ∈ rowKeys derive (table k),
        i ∈ dropped ∨ i ∈ rowKeys derive row ∨ i ∈ otherKeys derive table k) ∧
      ∀ i ∈ otherKeys derive table k, i ∈ dropped → i ∈ rowKeys derive row := by
  rw [← h.update_subset_iff, ← h.subset_update_iff, ← Set.Subset.antisymm_iff]
  rfl

end Update

end IronDirectory.Base.DerivedIndex
