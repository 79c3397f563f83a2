import Mathlib.Data.List.Basic
import Mathlib.Logic.Function.Basic

/-! Changes to a keyed store, replayed in order over a copy of it.  The last
change of a key decides, so a copy taken at any time after the first change
was recorded catches up. -/

universe u v

namespace IronDirectory.Base.Replay

variable {K : Type u} {V : Type v} [DecidableEq K]

def replay (cs : List (K × Option V)) (m : K → Option V) : K → Option V :=
  cs.foldl (fun m c => Function.update m c.1 c.2) m

@[simp] theorem replay_nil (m : K → Option V) : replay [] m = m := rfl

@[simp] theorem replay_cons (c : K × Option V) (cs : List (K × Option V)) (m : K → Option V) :
    replay (c :: cs) m = replay cs (Function.update m c.1 c.2) := rfl

theorem replay_append (cs ds : List (K × Option V)) (m : K → Option V) :
    replay (cs ++ ds) m = replay ds (replay cs m) := by
  simp [replay, List.foldl_append]

variable {cs ds : List (K × Option V)} {m m' : K → Option V} {k : K}

theorem replay_congr (h : m k = m' k) : replay cs m k = replay cs m' k := by
  induction cs generalizing m m' with
  | nil => exact h
  | cons c cs ih =>
    refine ih ?_
    by_cases hk : k = c.1
    · subst hk
      simp
    · simp [hk, h]

theorem replay_of_not_mem (h : k ∉ cs.map Prod.fst) : replay cs m k = m k := by
  induction cs generalizing m with
  | nil => rfl
  | cons c cs ih =>
    rw [List.map_cons, List.mem_cons, not_or] at h
    rw [replay_cons, ih h.2, Function.update_of_ne h.1]

theorem replay_of_mem (h : k ∈ cs.map Prod.fst) : replay cs m k = replay cs m' k := by
  induction cs generalizing m m' with
  | nil => simp at h
  | cons c cs ih =>
    by_cases hk : k ∈ cs.map Prod.fst
    · exact ih hk
    · rw [List.map_cons, List.mem_cons, or_iff_left hk] at h
      rw [replay_cons, replay_cons]
      exact replay_congr (by rw [h, Function.update_self, Function.update_self])

theorem replay_filter {q : K → Bool} (hk : q k = true) :
    replay (cs.filter fun c => q c.1) m k = replay cs m k := by
  induction cs generalizing m with
  | nil => rfl
  | cons c cs ih =>
    rw [List.filter_cons]
    split
    · exact ih
    · next hc =>
      have hne : k ≠ c.1 := by
        rintro rfl
        exact hc hk
      rw [ih, replay_cons]
      exact replay_congr (Function.update_of_ne hne _ _).symm

theorem replay_of_nodup {v : Option V} (hmem : (k, v) ∈ cs) (h : (cs.map Prod.fst).Nodup) :
    replay cs m k = v := by
  induction cs generalizing m with
  | nil => cases hmem
  | cons c cs ih =>
    rw [List.map_cons, List.nodup_cons] at h
    obtain rfl | hmem := List.mem_cons.mp hmem
    · rw [replay_cons, replay_of_not_mem h.1, Function.update_self]
    · exact ih hmem h.2

/-- On the keys of interest, the pending changes turn the copy into the
store. -/
def Settles (P : K → Prop) (cs : List (K × Option V)) (copy store : K → Option V) : Prop :=
  ∀ k, P k → replay cs copy k = store k

variable {P : K → Prop} {copy store : K → Option V}

theorem Settles.write (h : Settles P cs copy store) (ds : List (K × Option V)) :
    Settles P (cs ++ ds) copy (replay ds store) := by
  intro k hk
  rw [replay_append]
  exact replay_congr (h k hk)

theorem Settles.write_self (h : Settles P cs store store) (ds : List (K × Option V)) :
    Settles P (cs ++ ds) (replay ds store) (replay ds store) := by
  intro k hk
  by_cases hd : k ∈ ds.map Prod.fst
  · rw [replay_append]
    exact replay_of_mem hd
  · have hsame : replay cs (replay ds store) k = replay cs store k :=
      replay_congr (replay_of_not_mem hd)
    rw [replay_append, replay_of_not_mem hd, replay_of_not_mem hd, hsame, h k hk]

theorem Settles.congr {copy' store' : K → Option V} (h : Settles P cs copy store)
    (hcopy : ∀ k, P k → copy' k = copy k) (hstore : ∀ k, P k → store' k = store k) :
    Settles P cs copy' store' := fun k hk =>
  ((replay_congr (hcopy k hk)).trans (h k hk)).trans (hstore k hk).symm

def Covers (P : K → Prop) (cs : List (K × Option V)) (copy store : K → Option V) : Prop :=
  ∀ k, P k → (replay cs copy k).isSome = true → (store k).isSome = true

theorem Covers.write (h : Covers P cs copy store) (ds : List (K × Option V)) :
    Covers P (cs ++ ds) copy (replay ds store) := by
  intro k hk hsome
  rw [replay_append] at hsome
  by_cases hd : k ∈ ds.map Prod.fst
  · rwa [replay_of_mem hd]
  · rw [replay_of_not_mem hd] at hsome ⊢
    exact h k hk hsome

theorem Covers.congr {copy' store' : K → Option V} (h : Covers P cs copy store)
    (hcopy : ∀ k, P k → copy' k = copy k) (hstore : ∀ k, P k → store' k = store k) :
    Covers P cs copy' store' := by
  intro k hk hsome
  rw [hstore k hk]
  exact h k hk (by rwa [← replay_congr (hcopy k hk)])

theorem Covers.put (h : Covers P cs copy store)
    (hds : ∀ k, P k → k ∈ ds.map Prod.fst → (store k).isSome = true) :
    Covers P cs (replay ds copy) store := by
  intro k hk hsome
  by_cases hc : k ∈ cs.map Prod.fst
  · rw [replay_of_mem hc] at hsome
    exact h k hk hsome
  · by_cases hd : k ∈ ds.map Prod.fst
    · exact hds k hk hd
    · rw [replay_of_not_mem hc, replay_of_not_mem hd] at hsome
      exact h k hk (by rwa [replay_of_not_mem hc])

theorem isSome_replay (h : (m k).isSome = true) (hcs : ∀ c ∈ cs, c.1 = k → c.2.isSome = true) :
    (replay cs m k).isSome = true := by
  induction cs generalizing m with
  | nil => exact h
  | cons c cs ih =>
    obtain ⟨hc, hcs⟩ := List.forall_mem_cons.mp hcs
    rw [replay_cons]
    refine ih ?_ hcs
    rw [Function.update_apply]
    split
    · next hk => exact hc hk.symm
    · exact h

end IronDirectory.Base.Replay
