import Mathlib.Data.List.Basic

universe u v

namespace IronDirectory.Base

variable {S : Type u} {L : Type v}

/-- `Run step s steps t`: from `s` to `t`, recording at each step the state it
was taken in and its label. -/
inductive Run (step : S → L → S → Prop) : S → List (S × L) → S → Prop
  | nil (s : S) : Run step s [] s
  | cons {s t u : S} {l : L} {steps : List (S × L)} :
    step s l t → Run step t steps u → Run step s ((s, l) :: steps) u

namespace Run

variable {step : S → L → S → Prop} {s t : S} {steps : List (S × L)}

theorem append {u : S} {steps' : List (S × L)} (h : Run step s steps t) (h' : Run step t steps' u) :
    Run step s (steps ++ steps') u := by
  induction h with
  | nil => exact h'
  | cons hst _ ih => exact .cons hst (ih h')

theorem split {x : S} {l : L} {pre post : List (S × L)} (h : Run step s (pre ++ (x, l) :: post) t) :
    Run step s pre x ∧ ∃ u, step x l u ∧ Run step u post t := by
  induction pre generalizing s with
  | nil =>
    cases h with
    | cons hst hrest => exact ⟨.nil _, _, hst, hrest⟩
  | cons y pre ih =>
    cases h with
    | cons hst hrest =>
      obtain ⟨hpre, hpost⟩ := ih hrest
      exact ⟨.cons hst hpre, hpost⟩

theorem step_of_mem (h : Run step s steps t) {x : S × L} (hx : x ∈ steps) :
    ∃ u, step x.1 x.2 u := by
  obtain ⟨pre, post, rfl⟩ := List.append_of_mem hx
  obtain ⟨-, u, hu, -⟩ := h.split
  exact ⟨u, hu⟩

def states (steps : List (S × L)) (t : S) : List S := steps.map Prod.fst ++ [t]

@[simp] theorem states_nil (t : S) : states ([] : List (S × L)) t = [t] := rfl

@[simp] theorem states_cons (x : S × L) (steps : List (S × L)) (t : S) :
    states (x :: steps) t = x.1 :: states steps t := rfl

theorem start_mem (hrun : Run step s steps t) : s ∈ states steps t := by
  cases hrun with
  | nil => simp
  | cons => simp

theorem last_mem (steps : List (S × L)) (t : S) : t ∈ states steps t :=
  List.mem_append_right _ List.mem_cons_self

theorem invariant {P : S → Prop} (hstep : ∀ s l t, P s → step s l t → P t)
    (hrun : Run step s steps t) (hs : P s) : ∀ x ∈ states steps t, P x := by
  induction hrun with
  | nil s => simpa using hs
  | cons hst _ ih =>
    intro x hx
    rw [states_cons, List.mem_cons] at hx
    cases hx with
    | inl h => exact h ▸ hs
    | inr h => exact ih (hstep _ _ _ hs hst) x h

theorem invariant_of_guard {P : S → Prop} {G : S → L → Prop}
    (hstep : ∀ s l t, P s → G s l → step s l t → P t) (hrun : Run step s steps t) (hs : P s)
    (hG : ∀ x ∈ steps, G x.1 x.2) : ∀ x ∈ states steps t, P x := by
  induction hrun with
  | nil s => simpa using hs
  | cons hst _ ih =>
    rw [List.forall_mem_cons] at hG
    intro x hx
    rw [states_cons, List.mem_cons] at hx
    cases hx with
    | inl h => exact h ▸ hs
    | inr h => exact ih (hstep _ _ _ hs hG.1 hst) hG.2 x h

/-- Where the guard is exactly what makes the next state good, a run stays
good if and only if every step meets the guard. -/
theorem forall_iff_guard {P Q : S → Prop} {G : S → L → Prop} {V : L → Prop}
    (hPQ : ∀ s, P s → Q s) (hkeep : ∀ s l t, P s → V l → G s l → step s l t → P t)
    (hneed : ∀ s l t, P s → V l → step s l t → Q t → G s l) (hrun : Run step s steps t)
    (hs : P s) (hV : ∀ x ∈ steps, V x.2) :
    (∀ x ∈ states steps t, Q x) ↔ ∀ x ∈ steps, G x.1 x.2 := by
  induction hrun with
  | nil s => simpa using hPQ s hs
  | cons hst hrest ih =>
    rw [List.forall_mem_cons] at hV
    rw [states_cons, List.forall_mem_cons, List.forall_mem_cons]
    constructor
    · intro ⟨_, hQ⟩
      have hnext : _ ∈ states _ _ := hrest.start_mem
      have hG := hneed _ _ _ hs hV.1 hst (hQ _ hnext)
      exact ⟨hG, (ih (hkeep _ _ _ hs hV.1 hG hst) hV.2).mp hQ⟩
    · intro ⟨hG, hrest⟩
      exact ⟨hPQ _ hs, (ih (hkeep _ _ _ hs hV.1 hG hst) hV.2).mpr hrest⟩

end Run

end IronDirectory.Base
