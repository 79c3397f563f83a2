import IronDirectory.Defs.Base.Run
import IronDirectory.Defs.Storage.RidPool

/-! Concurrent callers of the RID pool.  Each call reads some committed value,
later sends one transaction, and may lose the answer or never send it; the
counter never returns to an earlier value, so no transaction succeeds on a
value that has been taken before. -/

namespace IronDirectory.Storage.RidPool

open Base Naming

inductive Phase
  | reading
  | sent (n : Nat) (compare : Compare)
  | answered (n : Nat) (succeeded : Bool)

/-- One call of `allocate_rid`.  When it is over its transaction may still be
on the way. -/
structure Caller where
  phase : Phase
  waiting : Bool

/-- The pool with its callers, each known by its place in the list; `commits`
and `returned` record who took and who was given which RID, in order. -/
structure Pool where
  cluster : Cluster
  past : List (Option Value)
  callers : List Caller
  commits : List (Nat × Nat)
  returned : List (Nat × Nat)

namespace Pool

def fresh (c : Cluster) : Pool := ⟨c, [none], [], [], []⟩

def setCaller (s : Pool) (i : Nat) (caller : Caller) : Pool :=
  { s with callers := s.callers.set i caller }

end Pool

inductive Action
  | start
  | read (i : Nat)
  | execute (i : Nat)
  | receive (i : Nat)
  | giveUp (i : Nat)
  | other

inductive Step (pid : PartitionId) : Pool → Action → Pool → Prop
  | start {s : Pool} : Step pid s .start { s with callers := s.callers ++ [⟨.reading, true⟩] }
  | read {s : Pool} {i n : Nat} {v : Option Value} {compare : Compare} :
    s.callers[i]? = some ⟨.reading, true⟩ → v ∈ s.past → current pid v = .ok (n, compare) →
    Step pid s (.read i) (s.setCaller i ⟨.sent n compare, true⟩)
  | commit {s : Pool} {i n : Nat} {compare : Compare} {waiting : Bool} {c : Cluster} :
    s.callers[i]? = some ⟨.sent n compare, waiting⟩ →
    swap s.cluster pid n compare = .ok (true, c) →
    Step pid s (.execute i)
      { s.setCaller i ⟨.answered n true, waiting⟩ with
        cluster := c
        past := c.kv.find? (poolKey pid) :: s.past
        commits := s.commits ++ [(i, n)] }
  | refuse {s : Pool} {i n : Nat} {compare : Compare} {waiting : Bool} {c : Cluster} :
    s.callers[i]? = some ⟨.sent n compare, waiting⟩ →
    swap s.cluster pid n compare = .ok (false, c) →
    Step pid s (.execute i) { s.setCaller i ⟨.answered n false, waiting⟩ with cluster := c }
  | deliver {s : Pool} {i n : Nat} :
    s.callers[i]? = some ⟨.answered n true, true⟩ →
    Step pid s (.receive i)
      { s.setCaller i ⟨.answered n true, false⟩ with returned := s.returned ++ [(i, n)] }
  | retry {s : Pool} {i n : Nat} :
    s.callers[i]? = some ⟨.answered n false, true⟩ →
    Step pid s (.receive i) (s.setCaller i ⟨.reading, true⟩)
  -- The read failed, the transaction failed, or its outcome was lost.
  | giveUp {s : Pool} {i : Nat} {phase : Phase} :
    s.callers[i]? = some ⟨phase, true⟩ → Step pid s (.giveUp i) (s.setCaller i ⟨phase, false⟩)
  -- Whatever else is done with the cluster leaves the pool's key alone.
  | other {s : Pool} {c : Cluster} :
    c.kv.find? (poolKey pid) = s.cluster.kv.find? (poolKey pid) →
    Step pid s .other { s with cluster := c }

theorem Step.frame {pid : PartitionId} {s s' : Pool} {a : Action} (h : Step pid s a s')
    (ha : a ≠ .other) {k : Str} (hk : k ≠ poolKey pid) :
    s'.cluster.kv.find? k = s.cluster.kv.find? k := by
  cases h with
  | commit _ hswap => rw [(swap_eq_true hswap).2, find?_advance, if_neg hk]
  | refuse _ hswap => rw [swap_eq_false hswap]
  | other _ => exact absurd rfl ha
  | start => rfl
  | read => rfl
  | deliver => rfl
  | retry => rfl
  | giveUp => rfl

theorem run_of_allocateRid {pid : PartitionId} {s : Pool} {rid : Nat} {c : Cluster}
    (hpast : s.cluster.kv.find? (poolKey pid) ∈ s.past)
    (h : allocateRid s.cluster pid = .ok (rid, c)) :
    ∃ steps t, Run (Step pid) s steps t ∧ t.cluster = c ∧
      t.returned = s.returned ++ [(s.callers.length, rid)] := by
  obtain ⟨compare, hcur, hswap⟩ := allocateRid_eq_ok h
  refine ⟨_, _, Run.cons .start (Run.cons (.read (i := s.callers.length) ?_ hpast hcur)
    (Run.cons (.commit (i := s.callers.length)
        (?_ : _ = some (⟨.sent rid compare, true⟩ : Caller)) hswap)
      (Run.cons (.deliver (i := s.callers.length) ?_) (.nil _)))), rfl, rfl⟩
  · simp
  · simp [Pool.setCaller]
  · simp [Pool.setCaller]

def counterOf : Option Value → Option Nat
  | some (.text s) => s.unsigned? (2 ^ 32)
  | _ => none

def CounterBelow (pid : PartitionId) (s : Pool) : Prop :=
  ∀ n ∈ counterOf (s.cluster.kv.find? (poolKey pid)), n < 2 ^ 32 - 1

instance CounterBelow.decidable (pid : PartitionId) (s : Pool) : Decidable (CounterBelow pid s) :=
  inferInstanceAs (Decidable (∀ n ∈ counterOf (s.cluster.kv.find? (poolKey pid)), n < 2 ^ 32 - 1))

structure Unique (s : Pool) : Prop where
  distinct : (s.returned.map Prod.snd).Nodup
  least : ∀ x ∈ s.returned, firstAllocatableRid ≤ x.2
  committed : ∀ x ∈ s.returned, x ∈ s.commits
  ordered : s.commits.Pairwise fun x y => x.2 < y.2

def counter : Nat → Option Value
  | 0 => none
  | k + 1 => some (.text (Str.ofNat (firstAllocatableRid + (k + 1))))

def compareOf : Nat → Compare
  | 0 => .absent
  | k + 1 => .value (Str.ofNat (firstAllocatableRid + (k + 1)))

theorem current_counter (pid : PartitionId) {k : Nat} (h : firstAllocatableRid + k < 2 ^ 32) :
    current pid (counter k) = .ok (firstAllocatableRid + k, compareOf k) := by
  cases k with
  | zero => rfl
  | succ k =>
    simp only [counter, current, Value.str, Outcome.ok_bind, Str.unsigned?_ofNat h]
    rfl

theorem eq_of_holds {c : Cluster} {key : Str} {k m : Nat} (hc : c.kv.find? key = counter m)
    (h : (compareOf k).holds c key = true) : k = m := by
  cases k with
  | zero =>
    cases m with
    | zero => rfl
    | succ m => simp [compareOf, Compare.holds, hc, counter] at h
  | succ k =>
    cases m with
    | zero => simp [compareOf, Compare.holds, hc, counter] at h
    | succ m =>
      simp only [compareOf, Compare.holds, hc, counter, beq_iff_eq] at h
      have := Str.ofNat_injective h
      omega

def Caller.Tracked (commits : List (Nat × Nat)) (i : Nat) (caller : Caller) : Prop :=
  match caller.phase with
  | .reading => True
  | .sent n compare =>
    ∃ k ≤ commits.length, n = firstAllocatableRid + k ∧ compare = compareOf k
  | .answered n true => (i, n) ∈ commits
  | .answered _ false => True

theorem Caller.Tracked.append {commits : List (Nat × Nat)} {i : Nat} {caller : Caller}
    (h : caller.Tracked commits i) (x : Nat × Nat) : caller.Tracked (commits ++ [x]) i := by
  obtain ⟨phase, waiting⟩ := caller
  cases phase with
  | reading => trivial
  | sent n compare =>
    obtain ⟨k, hk, hn, hc⟩ := h
    exact ⟨k, by rw [List.length_append]; omega, hn, hc⟩
  | answered n succeeded =>
    cases succeeded with
    | true => exact List.mem_append_left _ h
    | false => trivial

structure Sound (pid : PartitionId) (s : Pool) : Prop where
  stored : s.cluster.kv.find? (poolKey pid) = counter s.commits.length
  taken : s.commits.map Prod.snd = (List.range s.commits.length).map (firstAllocatableRid + ·)
  room : firstAllocatableRid + s.commits.length < 2 ^ 32
  past : ∀ v ∈ s.past, ∃ k ≤ s.commits.length, v = counter k
  callers : ∀ i caller, s.callers[i]? = some caller → Caller.Tracked s.commits i caller
  returned : s.returned.Nodup ∧ ∀ x ∈ s.returned, x ∈ s.commits
  ended : ∀ x ∈ s.returned, ∃ caller, s.callers[x.1]? = some caller ∧ caller.waiting = false

variable {pid : PartitionId} {s s' : Pool} {a : Action}

theorem sound_fresh {c : Cluster} (h : c.kv.find? (poolKey pid) = none) :
    Sound pid (Pool.fresh c) where
  stored := h
  taken := rfl
  room := by simp [Pool.fresh, firstAllocatableRid]
  past := by simp [Pool.fresh, counter]
  callers := by simp [Pool.fresh]
  returned := by simp [Pool.fresh]
  ended := by simp [Pool.fresh]

theorem Sound.unique (h : Sound pid s) : Unique s := by
  have hnodup : (s.commits.map Prod.snd).Nodup := by
    rw [h.taken]
    exact (List.nodup_range).map fun a b => Nat.add_left_cancel
  constructor
  · refine List.Nodup.map_on ?_ h.returned.1
    intro x hx y hy hxy
    exact List.inj_on_of_nodup_map hnodup (h.returned.2 x hx) (h.returned.2 y hy) hxy
  · intro x hx
    have hmem := List.mem_map_of_mem (f := Prod.snd) (h.returned.2 x hx)
    rw [h.taken] at hmem
    obtain ⟨k, -, hk⟩ := List.mem_map.mp hmem
    exact hk ▸ Nat.le_add_right _ _
  · exact h.returned.2
  · rw [← List.pairwise_map, h.taken, List.pairwise_map]
    exact List.pairwise_lt_range.imp fun hab => Nat.add_lt_add_left hab _

theorem Sound.setCaller (h : Sound pid s) {i : Nat} {caller caller' : Caller}
    (hi : s.callers[i]? = some caller) (htracked : caller'.Tracked s.commits i)
    (hover : caller.waiting = false → caller'.waiting = false) :
    Sound pid (s.setCaller i caller') where
  stored := h.stored
  taken := h.taken
  room := h.room
  past := h.past
  callers := by
    intro j c hj
    rw [Pool.setCaller, List.getElem?_set] at hj
    split at hj
    case isTrue hij =>
      split at hj
      · cases hj
        exact hij ▸ htracked
      · cases hj
    case isFalse => exact h.callers j c hj
  returned := h.returned
  ended := by
    intro x hx
    obtain ⟨c, hc, hw⟩ := h.ended x hx
    by_cases hix : i = x.1
    · subst hix
      cases hi.symm.trans hc
      exact ⟨caller', List.getElem?_set_self (List.getElem?_eq_some_iff.mp hi).1, hover hw⟩
    · exact ⟨c, (List.getElem?_set_ne hix).trans hc, hw⟩

theorem Sound.read (h : Sound pid s) {v : Option Value} {n : Nat} {compare : Compare}
    (hv : v ∈ s.past) (hcur : current pid v = .ok (n, compare)) :
    ∃ k ≤ s.commits.length, n = firstAllocatableRid + k ∧ compare = compareOf k := by
  obtain ⟨k, hk, rfl⟩ := h.past v hv
  have hroom := h.room
  rw [current_counter pid (by omega)] at hcur
  cases hcur
  exact ⟨k, hk, rfl, rfl⟩

theorem Sound.counter_lt (h : Sound pid s) (hbelow : CounterBelow pid s) :
    firstAllocatableRid + (s.commits.length + 1) < 2 ^ 32 := by
  rw [CounterBelow, h.stored] at hbelow
  cases hk : s.commits.length with
  | zero => decide
  | succ k =>
    have hroom := h.room
    rw [hk] at hbelow hroom
    have := hbelow _ (Str.unsigned?_ofNat hroom)
    omega

theorem Sound.take (h : Sound pid s) {c : Cluster} (i : Nat)
    (hroom : firstAllocatableRid + (s.commits.length + 1) < 2 ^ 32)
    (hc : c.kv.find? (poolKey pid) = counter (s.commits.length + 1)) :
    Sound pid { s with
      cluster := c
      past := c.kv.find? (poolKey pid) :: s.past
      commits := s.commits ++ [(i, firstAllocatableRid + s.commits.length)] } where
  stored := by simpa using hc
  taken := by simp [h.taken, List.range_succ]
  room := by simpa using hroom
  past := by
    rw [hc]
    intro v hv
    cases List.mem_cons.mp hv with
    | inl hv => exact ⟨s.commits.length + 1, by simp, hv⟩
    | inr hv =>
      obtain ⟨k, hk, hvk⟩ := h.past v hv
      exact ⟨k, by simp; omega, hvk⟩
  callers := fun j caller hj => (h.callers j caller hj).append _
  returned := ⟨h.returned.1, fun x hx => List.mem_append_left _ (h.returned.2 x hx)⟩
  ended := h.ended

theorem Sound.commit (h : Sound pid s) (hbelow : CounterBelow pid s) {i n : Nat}
    {compare : Compare} {waiting : Bool} {c : Cluster}
    (hi : s.callers[i]? = some ⟨.sent n compare, waiting⟩)
    (hswap : swap s.cluster pid n compare = .ok (true, c)) :
    Sound pid { s.setCaller i ⟨.answered n true, waiting⟩ with
      cluster := c
      past := c.kv.find? (poolKey pid) :: s.past
      commits := s.commits ++ [(i, n)] } := by
  obtain ⟨k, hk, rfl, rfl⟩ := h.callers i _ hi
  obtain ⟨hholds, hc⟩ := swap_eq_true hswap
  obtain rfl := eq_of_holds h.stored hholds
  have hroom := h.counter_lt hbelow
  have hstored : c.kv.find? (poolKey pid) = counter (s.commits.length + 1) := by
    rw [hc, find?_advance, if_pos rfl, next, Nat.mod_eq_of_lt (by omega)]
    rfl
  exact (h.take i hroom hstored).setCaller hi (List.mem_append_right _ List.mem_cons_self) id

theorem Sound.deliver (h : Sound pid s) {i n : Nat}
    (hi : s.callers[i]? = some ⟨.answered n true, true⟩) :
    Sound pid { s.setCaller i ⟨.answered n true, false⟩ with
      returned := s.returned ++ [(i, n)] } := by
  have hcommitted : (i, n) ∈ s.commits := h.callers i _ hi
  have hmoved : Sound pid (s.setCaller i ⟨.answered n true, false⟩) :=
    h.setCaller hi hcommitted fun _ => rfl
  have hnew : (i, n) ∉ s.returned := by
    intro hmem
    obtain ⟨c, hc, hw⟩ := h.ended _ hmem
    cases hi.symm.trans hc
    cases hw
  refine ⟨h.stored, h.taken, h.room, h.past, hmoved.callers, ⟨?_, ?_⟩, ?_⟩
  · rw [List.nodup_append_comm]
    exact List.nodup_cons.mpr ⟨hnew, h.returned.1⟩
  · intro x hx
    cases List.mem_append.mp hx with
    | inl hx => exact h.returned.2 x hx
    | inr hx => exact List.mem_singleton.mp hx ▸ hcommitted
  · intro x hx
    cases List.mem_append.mp hx with
    | inl hx => exact hmoved.ended x hx
    | inr hx =>
      obtain rfl := List.mem_singleton.mp hx
      exact ⟨_, List.getElem?_set_self (List.getElem?_eq_some_iff.mp hi).1, rfl⟩

theorem Sound.start (h : Sound pid s) :
    Sound pid { s with callers := s.callers ++ [⟨.reading, true⟩] } where
  stored := h.stored
  taken := h.taken
  room := h.room
  past := h.past
  callers := by
    intro i caller hi
    rw [List.getElem?_append] at hi
    split at hi
    · exact h.callers i caller hi
    · obtain rfl := List.mem_singleton.mp (List.mem_of_getElem? hi)
      trivial
  returned := h.returned
  ended := by
    intro x hx
    obtain ⟨c, hc, hw⟩ := h.ended x hx
    exact ⟨c, by rw [List.getElem?_append_left (List.getElem?_eq_some_iff.mp hc).1, hc], hw⟩

theorem Sound.step (h : Sound pid s) (hbelow : CounterBelow pid s) (hstep : Step pid s a s') :
    Sound pid s' := by
  cases hstep with
  | start => exact h.start
  | read hi hv hcur => exact h.setCaller hi (h.read hv hcur) id
  | commit hi hswap => exact h.commit hbelow hi hswap
  | refuse hi hswap =>
    obtain rfl := swap_eq_false hswap
    exact h.setCaller hi trivial id
  | deliver hi => exact h.deliver hi
  | retry hi => exact h.setCaller hi trivial id
  | giveUp hi =>
    have htracked := h.callers _ _ hi
    exact h.setCaller hi htracked fun _ => rfl
  | other hc => exact ⟨hc.trans h.stored, h.taken, h.room, h.past, h.callers, h.returned, h.ended⟩

/-- From an empty pool, whatever the interleaving and whoever loses an answer,
no RID is given out twice. -/
theorem rids_unique (pid : PartitionId) {c : Cluster} {t : Pool} {steps : List (Pool × Action)}
    (hempty : c.kv.find? (poolKey pid) = none) (hrun : Run (Step pid) (Pool.fresh c) steps t)
    (hbelow : ∀ x ∈ steps, CounterBelow pid x.1) : ∀ x ∈ Run.states steps t, Unique x := by
  intro x hx
  have hsound : Sound pid x := Run.invariant_of_guard (fun _ _ _ h hG hstep => h.step hG hstep) hrun
    (sound_fresh hempty) hbelow x hx
  exact hsound.unique

theorem validId_corp : validId "corp" = true := by decide

def corpId : PartitionId := ⟨"corp", validId_corp⟩

theorem rids_unique_in_race :
    ∃ steps t, Run (Step corpId) (Pool.fresh .empty) steps t ∧
      t.commits = [(0, 1000), (1, 1001)] ∧ t.returned = [(1, 1001)] ∧ Unique t := by
  have hrun := Run.cons (show Step corpId (Pool.fresh .empty) .start _ from .start)
    (Run.cons Step.start
      (Run.cons (Step.read (i := 0) (v := none) rfl List.mem_cons_self rfl)
        (Run.cons (Step.read (i := 1) (v := none) rfl List.mem_cons_self rfl)
          (Run.cons (Step.commit (i := 0) rfl rfl)
            (Run.cons (Step.refuse (i := 1) rfl rfl)
              (Run.cons (Step.giveUp (i := 0) rfl)
                (Run.cons (Step.retry (i := 1) rfl)
                  (Run.cons (Step.read (i := 1) rfl List.mem_cons_self rfl)
                    (Run.cons (Step.commit (i := 1) rfl rfl)
                      (Run.cons (Step.deliver (i := 1) rfl) (.nil _)))))))))))
  refine ⟨_, _, hrun, rfl, rfl, rids_unique corpId rfl hrun ?_ _ (Run.last_mem _ _)⟩
  decide +kernel

end IronDirectory.Storage.RidPool
