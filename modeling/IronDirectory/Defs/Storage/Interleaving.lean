import IronDirectory.Defs.Storage.IndexHistory

/-! Index writes by independent processes.  Each call reads the entry it will
replace and later commits one transaction, and other calls may commit in
between. -/

namespace IronDirectory.Storage.Interleaving

open Base Naming Index View

structure Job where
  dn : Dn
  new : Option Entry

/-- A call between its read and its transaction.  A delete that read nothing
has already returned. -/
structure Pending where
  job : Job
  old : Option Entry
  live : (job.new.isSome || old.isSome) = true

def Pending.ops (pid : PartitionId) (spec : IndexSpec) (c : Pending) : List (TxnOp Str Value) :=
  match c.job.new, c.old with
  | some e, old => putOps pid c.job.dn old e spec
  | none, some old => deleteOps pid c.job.dn old spec
  | none, none => []

structure State where
  cluster : Cluster
  names : Names
  pending : List Pending

inductive Action
  | read (job : Job)
  | commit (i : Nat)
  | fail (i : Nat)

def apply (pid : PartitionId) (spec : IndexSpec) (s : State) : Action → Except StoreError State
  | .read job => do
    let old ← readEntry s.cluster pid job.dn
    if h : (job.new.isSome || old.isSome) = true then
      return { s with pending := s.pending ++ [⟨job, old, h⟩] }
    else
      return s
  | .commit i =>
    match s.pending[i]? with
    | none => return s
    | some c => do
      let cluster ← s.cluster.txn (c.ops pid spec)
      return ⟨cluster, rename pid c.job.dn c.job.new s.names, s.pending.eraseIdx i⟩
  | .fail i => return { s with pending := s.pending.eraseIdx i }

def Step (pid : PartitionId) (spec : IndexSpec) (s : State) (a : Action) (s' : State) : Prop :=
  apply pid spec s a = .ok s'

theorem putEntryIndexed_eq_read_commit (c : Cluster) (names : Names) (pid : PartitionId) (dn : Dn)
    (e : Entry) (spec : IndexSpec) :
    putEntryIndexed c pid dn e spec = (do
      let s ← apply pid spec ⟨c, names, []⟩ (.read ⟨dn, some e⟩)
      let s ← apply pid spec s (.commit 0)
      return s.cluster) := by
  simp only [putEntryIndexed, apply]
  cases readEntry c pid dn with
  | error err => rfl
  | ok old =>
    simp only [Outcome.ok_bind]
    cases h : c.txn (putOps pid dn old e spec) with
    | error err => simp [Pending.ops, h]
    | ok c' => simp [Pending.ops, h]

theorem deleteEntryIndexed_eq_read_commit (c : Cluster) (names : Names) (pid : PartitionId)
    (dn : Dn) (spec : IndexSpec) :
    deleteEntryIndexed c pid dn spec = (do
      let s ← apply pid spec ⟨c, names, []⟩ (.read ⟨dn, none⟩)
      let s ← apply pid spec s (.commit 0)
      return s.cluster) := by
  simp only [deleteEntryIndexed, apply]
  cases readEntry c pid dn with
  | error err => rfl
  | ok old =>
    cases old with
    | none => rfl
    | some old =>
      simp only [Outcome.ok_bind]
      cases h : c.txn (deleteOps pid dn old spec) with
      | error err => simp [Pending.ops, h]
      | ok c' => simp [Pending.ops, h]

variable {pid : PartitionId} {spec : IndexSpec} {s s' : State} {a : Action}

theorem Pending.writes (c : Pending) {cl cl' : Cluster}
    (h : cl'.kv = TxnOp.applyAll (c.ops pid spec) cl.kv) :
    Writes pid spec c.job.dn (keysOf pid c.job.dn c.old spec) c.job.new cl cl' := by
  obtain ⟨⟨dn, new⟩, old, ho⟩ := c
  cases new with
  | some e => exact writes_putOps old e h
  | none =>
    cases old with
    | some old => exact writes_deleteOps old h
    | none => cases ho

def IndexKeysExact (pid : PartitionId) (spec : IndexSpec) (s : State) : Prop :=
  ∀ k, (Key.indexRoot pid <+: k ∧ ∃ v, s.cluster.kv.find? k = some v) ↔
    ∃ dn e, s.names (Key.entryKey pid dn) = some dn ∧
      s.cluster.kv.find? (Key.entryKey pid dn) = some (.entry e) ∧
        k ∈ indexKeysFor pid dn e spec

theorem exact_iff_indexKeysExact (hk : Kept pid (s.cluster.view pid) s.names) :
    Exact pid spec (s.cluster.view pid) s.names ↔ IndexKeysExact pid spec s := by
  have hview : ∀ dn, s.cluster.view pid (Key.entryKey pid dn) =
      s.cluster.kv.find? (Key.entryKey pid dn) :=
    fun dn => s.cluster.view_of_isPrefix (Key.partitionRoot_isPrefix_entryKey.mpr rfl)
  have hindexed : ∀ k, k ∈ indexed pid (s.cluster.view pid) ↔
      Key.indexRoot pid <+: k ∧ ∃ v, s.cluster.kv.find? k = some v := by
    intro k
    refine and_congr_right fun hroot => ?_
    rw [s.cluster.view_of_isPrefix ((Key.partitionRoot_isPrefix_indexRoot pid).trans hroot)]
  have htable : ∀ k, k ∈ DerivedIndex.tableKeys (derived pid spec)
        (row (s.cluster.view pid) s.names) ↔
      ∃ dn e, s.names (Key.entryKey pid dn) = some dn ∧
        s.cluster.kv.find? (Key.entryKey pid dn) = some (.entry e) ∧
          k ∈ indexKeysFor pid dn e spec := by
    intro k
    constructor
    · intro h
      obtain ⟨k', dn, e, hn, hv, hmem⟩ := exists_of_mem_tableKeys h
      obtain rfl := hk.named k' dn hn
      exact ⟨dn, e, hn, (hview dn).symm.trans hv, hmem⟩
    · intro ⟨dn, e, hn, hv, hmem⟩
      exact ⟨_, (dn, e), row_eq_some.mpr ⟨hn, (hview dn).trans hv⟩, hmem⟩
  rw [Exact, DerivedIndex.Exact, Set.ext_iff]
  exact forall_congr' fun k => by rw [hindexed, htable]

/-- When a call commits, the keys of the entry then stored are among those of
the entry it read and of the entry it writes, and it drops no key that another
entry has. -/
def ReadsCurrent (pid : PartitionId) (spec : IndexSpec) (s : State) : Action → Prop
  | .read _ => True
  | .fail _ => True
  | .commit i => ∀ c, s.pending[i]? = some c →
    Covers pid spec c.job.dn (keysOf pid c.job.dn c.old spec) c.job.new
        (s.cluster.view pid) s.names ∧
      Spares pid spec c.job.dn (keysOf pid c.job.dn c.old spec) c.job.new
        (s.cluster.view pid) s.names

theorem step_cases (h : Step pid spec s a s') :
    (s'.cluster = s.cluster ∧ s'.names = s.names ∧ ReadsCurrent pid spec s a) ∨
      ∃ i c, a = .commit i ∧ s.pending[i]? = some c ∧
        Commit pid spec c.job.dn (keysOf pid c.job.dn c.old spec) c.job.new
          (s.cluster.view pid) (s'.cluster.view pid) ∧
        s'.names = rename pid c.job.dn c.job.new s.names := by
  cases a with
  | read job =>
    obtain ⟨old, -, h⟩ := Outcome.bind_eq_ok.mp h
    split at h
    · cases h
      exact .inl ⟨rfl, rfl, trivial⟩
    · cases h
      exact .inl ⟨rfl, rfl, trivial⟩
  | fail i =>
    cases h
    exact .inl ⟨rfl, rfl, trivial⟩
  | commit i =>
    rw [Step, apply] at h
    cases hc : s.pending[i]? with
    | none =>
      rw [hc] at h
      cases h
      refine .inl ⟨rfl, rfl, fun c hc' => ?_⟩
      rw [hc] at hc'
      cases hc'
    | some c =>
      rw [hc] at h
      obtain ⟨cl, htxn, h⟩ := Outcome.bind_eq_ok.mp h
      cases h
      exact .inr ⟨i, c, rfl, hc, (c.writes (Cluster.txn_eq_ok htxn)).view, rfl⟩

structure Consistent (pid : PartitionId) (spec : IndexSpec) (s : State) : Prop where
  kept : Kept pid (s.cluster.view pid) s.names
  exact : IndexKeysExact pid spec s

theorem Consistent.step_iff (h : Consistent pid spec s) (hstep : Step pid spec s a s') :
    Kept pid (s'.cluster.view pid) s'.names ∧
      (IndexKeysExact pid spec s' ↔ ReadsCurrent pid spec s a) := by
  have he := (exact_iff_indexKeysExact h.kept).mpr h.exact
  cases step_cases hstep with
  | inl hsame =>
    obtain ⟨hcluster, hnames, hread⟩ := hsame
    have hkept := h.kept
    rw [← hcluster, ← hnames] at hkept he
    exact ⟨hkept, iff_of_true ((exact_iff_indexKeysExact hkept).mp he) hread⟩
  | inr hcommit =>
    obtain ⟨i, c, rfl, hc, hcm, hnames⟩ := hcommit
    have hkept := hcm.kept h.kept
    rw [← hnames] at hkept
    refine ⟨hkept, ?_⟩
    rw [← exact_iff_indexKeysExact hkept, hnames, hcm.exact_iff h.kept he]
    constructor
    · intro hcov c' hc'
      rw [hc] at hc'
      cases hc'
      exact hcov
    · intro hread
      exact hread c hc

/-- From a consistent state, the index keys are exact in every state of an
interleaving if and only if every call commits over keys it has read. -/
theorem indexKeysExact_iff_readsCurrent (pid : PartitionId) (spec : IndexSpec) {s₀ s : State}
    {steps : List (State × Action)} (h₀ : Consistent pid spec s₀)
    (hrun : Run (Step pid spec) s₀ steps s) :
    (∀ x ∈ Run.states steps s, IndexKeysExact pid spec x) ↔
      ∀ x ∈ steps, ReadsCurrent pid spec x.1 x.2 :=
  Run.forall_iff_guard (V := fun _ => True) (fun _ h => h.exact)
    (fun _ _ _ h _ hG hstep => ⟨(h.step_iff hstep).1, (h.step_iff hstep).2.mpr hG⟩)
    (fun _ _ _ h _ hstep hQ => (h.step_iff hstep).2.mp hQ) hrun h₀ (fun _ _ => trivial)

open Tracked (corp corpPerson mailSpec withMail)

def corpStart : State := ⟨.empty, fun _ => none, []⟩

theorem corpStart_consistent : Consistent corp.id mailSpec corpStart := by
  have hview : corpStart.cluster.view corp.id = fun _ => none := Cluster.view_empty corp.id
  have hkept : Kept corp.id (corpStart.cluster.view corp.id) corpStart.names := by
    rw [hview]
    exact kept_empty corp.id
  refine ⟨hkept, (exact_iff_indexKeysExact hkept).mp ?_⟩
  rw [hview]
  exact exact_empty corp.id mailSpec

theorem readsCurrent_of_sole {i : Nat} {c : Pending} (hc : s.pending[i]? = some c)
    (hsole : ∀ k dn, s.names k = some dn → k = Key.entryKey pid c.job.dn ∧ dn = c.job.dn)
    (hold : ∀ e, s.cluster.view pid (Key.entryKey pid c.job.dn) = some (.entry e) →
      c.old = some e) : ReadsCurrent pid spec s (.commit i) := by
  intro c' hc'
  cases hc.symm.trans hc'
  refine ⟨fun dn₀ old hn hv k hk => ?_, fun k hk => ?_⟩
  · rw [hold old hv, keysOf_some, ← (hsole _ dn₀ hn).2]
    exact .inl hk
  · obtain ⟨k', _, _, hne, hn, _⟩ := hk
    exact absurd (hsole _ _ hn).1 hne

def putMail (mail : Str) : Action := .read ⟨corpPerson "Alice", some (withMail mail)⟩

theorem indexKeysExact_of_sequential_puts :
    ∃ steps s, Run (Step corp.id mailSpec) corpStart steps s ∧
      steps.map Prod.snd = [putMail "a@corp", .commit 0, putMail "b@corp", .commit 0] ∧
      (s.cluster.kv.find? (Key.indexKey corp.id "mail" "a@corp" (corpPerson "Alice"))).isSome =
        false ∧
      (s.cluster.kv.find? (Key.indexKey corp.id "mail" "b@corp" (corpPerson "Alice"))).isSome =
        true ∧
      ∀ x ∈ Run.states steps s, IndexKeysExact corp.id mailSpec x := by
  have hrun := Run.cons (show Step corp.id mailSpec corpStart (putMail "a@corp") _ from rfl)
    (Run.cons (show Step corp.id mailSpec _ (.commit 0) _ from rfl)
      (Run.cons (show Step corp.id mailSpec _ (putMail "b@corp") _ from rfl)
        (Run.cons (show Step corp.id mailSpec _ (.commit 0) _ from rfl) (.nil _))))
  refine ⟨_, _, hrun, rfl, by decide +kernel, by decide +kernel,
    (indexKeysExact_iff_readsCurrent corp.id mailSpec corpStart_consistent hrun).mpr ?_⟩
  simp only [List.forall_mem_cons]
  refine ⟨trivial, readsCurrent_of_sole rfl nofun ?_, trivial, readsCurrent_of_sole rfl ?_ ?_,
    by simp⟩
  · intro e h
    cases (congrFun (Cluster.view_empty corp.id) _).symm.trans h
  · intro k dn h
    change Function.update (fun _ => none) _ (some (corpPerson "Alice")) k = some dn at h
    rw [Function.update_apply] at h
    split at h
    · next hk =>
      cases h
      exact ⟨hk, rfl⟩
    · cases h
  · intro e h
    rw [Cluster.view_of_isPrefix _ (Key.partitionRoot_isPrefix_entryKey.mpr rfl)] at h
    cases h
    rfl

theorem racing_puts_leave_stale_key :
    ∃ steps s, Run (Step corp.id mailSpec) corpStart steps s ∧
      (∀ x ∈ steps, ∀ job, x.2 = .read job → job.dn = corpPerson "Alice") ∧
      s.pending = [] ∧ ¬ IndexKeysExact corp.id mailSpec s := by
  have hrun := Run.cons
    (show Step corp.id mailSpec corpStart
      (.read ⟨corpPerson "Alice", some (withMail "a@corp")⟩) _ from rfl)
    (Run.cons (show Step corp.id mailSpec _
        (.read ⟨corpPerson "Alice", some (withMail "b@corp")⟩) _ from rfl)
      (Run.cons (show Step corp.id mailSpec _ (.commit 0) _ from rfl)
        (Run.cons (show Step corp.id mailSpec _ (.commit 0) _ from rfl) (.nil _))))
  refine ⟨_, _, hrun, ?_, rfl, ?_⟩
  · simp
  · intro h
    have hstale := (h (Key.indexKey corp.id "mail" "a@corp" (corpPerson "Alice"))).mp
      ⟨Key.indexRoot_isPrefix_indexKey _ _ _ _, Option.isSome_iff_exists.mp (by decide +kernel)⟩
    obtain ⟨dn, e, hn, he, hmem⟩ := hstale
    have hdn : dn = corpPerson "Alice" := by
      cases rename_eq_some hn with
      | inl hlast => exact hlast.2
      | inr hfirst =>
        cases rename_eq_some hfirst.2 with
        | inl hfirst => exact hfirst.2
        | inr hnone => cases hnone.2
    subst hdn
    cases he
    exact absurd hmem (by decide)

end IronDirectory.Storage.Interleaving
