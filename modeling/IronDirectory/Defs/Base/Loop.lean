import Mathlib.Tactic.Common

universe u

namespace IronDirectory.Base

variable {S : Type u}

/-- `while cond { body }`, given up when the turns run out. -/
def whileLoop (cond : S → Bool) (body : S → S) : Nat → S → Option S
  | 0, s => if cond s then none else some s
  | fuel + 1, s => if cond s then whileLoop cond body fuel (body s) else some s

/-- A loop whose turns lower a measure `m` and keep the result `r` ends with it. -/
theorem whileLoop_eq_some {cond : S → Bool} {body : S → S} {I : S → Prop} {m : S → Nat}
    {r : S → S} (hdone : ∀ s, I s → cond s = false → r s = s)
    (hturn : ∀ s, I s → cond s = true → I (body s) ∧ m (body s) < m s ∧ r (body s) = r s)
    {fuel : Nat} {s : S} (hs : I s) (hfuel : m s ≤ fuel) :
    whileLoop cond body fuel s = some (r s) := by
  induction fuel generalizing s with
  | zero =>
    cases hcond : cond s with
    | false =>
      rw [whileLoop, hcond, hdone s hs hcond]
      rfl
    | true =>
      have hlt := (hturn s hs hcond).2.1
      omega
  | succ fuel ih =>
    cases hcond : cond s with
    | false =>
      rw [whileLoop, hcond, hdone s hs hcond]
      rfl
    | true =>
      obtain ⟨hinv, hlt, hresult⟩ := hturn s hs hcond
      rw [whileLoop, hcond, if_pos rfl, ih hinv (by omega), hresult]

/-- `for i in 0..n { body }` where a turn may fail: what each turn carries on
holds after the last. -/
theorem foldlM_range_eq_some {f : S → Nat → Option S} {P : Nat → S → Prop} {n : Nat} {s : S}
    (hs : P 0 s) (hturn : ∀ i s, i < n → P i s → ∃ t, f s i = some t ∧ P (i + 1) t) :
    ∃ t, (List.range n).foldlM f s = some t ∧ P n t := by
  induction n with
  | zero => exact ⟨s, rfl, hs⟩
  | succ n ih =>
    obtain ⟨t, ht, hPt⟩ := ih fun i s hi => hturn i s (by omega)
    obtain ⟨u, hu, hPu⟩ := hturn n t (by omega) hPt
    refine ⟨u, ?_, hPu⟩
    rw [List.range_succ, List.foldlM_append, ht]
    simp [hu]

end IronDirectory.Base
