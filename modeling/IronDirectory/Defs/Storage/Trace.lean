import IronDirectory.Defs.Storage.RidPool

namespace IronDirectory.Storage

open Base Naming

namespace Store

theorem resolve_eq_of_id {reg : PartitionRegistry} {d e : Dn} {p q : Partition}
    (hp : reg.resolve d = some p) (hq : reg.resolve e = some q) (h : p.id = q.id) : p = q := by
  have hp' := PartitionRegistry.mem_iter_iff.mp (PartitionRegistry.resolve_mem hp).1
  have hq' := PartitionRegistry.mem_iter_iff.mp (PartitionRegistry.resolve_mem hq).1
  rw [h, hq'] at hp'
  exact (Option.some.inj hp').symm

theorem resolve_congr (reg : PartitionRegistry) {d e : Dn} (h : d.Same e) :
    reg.resolve d = reg.resolve e := by
  have hwithin : d.isWithin = e.isWithin := by
    have hdepth : d.depth = e.depth := by
      simpa [Dn.norm, Dn.depth] using congrArg List.length h
    funext base
    rw [Dn.isWithin, Dn.isWithin, hdepth, show d.norm = e.norm from h]
  simp only [PartitionRegistry.resolve, hwithin]

def entryAt (s : Store) (dn : Dn) : Option Value := do
  let p ← s.registry.resolve dn
  (s.clusters p.cluster).kv.find? (Key.entryKey p.id dn)

theorem entryAt_of_resolve {s : Store} {dn : Dn} {p : Partition}
    (h : s.registry.resolve dn = some p) :
    s.entryAt dn = (s.clusters p.cluster).kv.find? (Key.entryKey p.id dn) := by
  rw [entryAt, h]
  rfl

theorem entryAt_eq_of_path {s : Store} {d e : Dn}
    (hreg : s.registry.resolve d = s.registry.resolve e) (hpath : d.path = e.path) :
    s.entryAt d = s.entryAt e := by
  simp only [entryAt, hreg, Key.entryKey_eq, hpath]

theorem entryAt_congr {s : Store} {d e : Dn} (h : d.Same e) : s.entryAt d = s.entryAt e :=
  entryAt_eq_of_path (resolve_congr s.registry h) (Key.path_congr h)

theorem getEntry_eq_ok {s : Store} {dn : Dn} {e : Option Entry} (h : s.getEntry dn = .ok e) :
    s.entryAt dn = e.map .entry := by
  obtain ⟨p, hp, h⟩ := Outcome.bind_eq_ok.mp h
  rw [client_of_resolve (resolve_eq_ok hp), Outcome.ok_bind] at h
  rw [entryAt_of_resolve (resolve_eq_ok hp), Index.readEntry_eq_ok h]

def Each (P : Entry → Prop) (s : Store) : Prop :=
  ∀ ref k e, (s.clusters ref).kv.find? k = some (.entry e) → P e

theorem Each.getEntry {P : Entry → Prop} {s : Store} {dn : Dn} {e : Entry} (hs : s.Each P)
    (h : s.getEntry dn = .ok (some e)) : P e := by
  obtain ⟨p, -, hp⟩ := Option.bind_eq_some_iff.mp (getEntry_eq_ok h)
  exact hs _ _ e hp

@[simp] theorem setCluster_registry (s : Store) (ref : ClusterRef) (c : Cluster) :
    (s.setCluster ref c).registry = s.registry := rfl

@[simp] theorem setCluster_self (s : Store) (ref : ClusterRef) (c : Cluster) :
    (s.setCluster ref c).clusters ref = c := by simp [setCluster]

theorem setCluster_of_ne (s : Store) {ref ref' : ClusterRef} (c : Cluster) (h : ref' ≠ ref) :
    (s.setCluster ref c).clusters ref' = s.clusters ref' := by simp [setCluster, h]

theorem setCluster_congr {α : Type} {f : Cluster → α} {s : Store} {ref : ClusterRef} {c : Cluster}
    (h : f c = f (s.clusters ref)) (ref' : ClusterRef) :
    f ((s.setCluster ref c).clusters ref') = f (s.clusters ref') := by
  by_cases href : ref' = ref
  · rw [href, setCluster_self, h]
  · rw [setCluster_of_ne s c href]

def Wrote (spec : IndexSpec) (s : Store) (dn : Dn) (new : Option Entry) (s' : Store) : Prop :=
  ∃ p c dropped, s.registry.resolve dn = some p ∧ s' = s.setCluster p.cluster c ∧
    Index.Writes p.id spec dn dropped new (s.clusters p.cluster) c

theorem wrote_putEntry {spec : IndexSpec} {s s' : Store} {dn : Dn} {e : Entry}
    (h : s.putEntry dn e spec = .ok s') : Wrote spec s dn (some e) s' := by
  obtain ⟨p, c, hp, hs, hput⟩ := putEntry_eq_ok h
  obtain ⟨old, -, hw⟩ := Index.putEntryIndexed_eq_ok hput
  exact ⟨p, c, _, hp, hs, hw⟩

theorem wrote_deleteEntry {spec : IndexSpec} {s s' : Store} {dn : Dn}
    (h : s.deleteEntry dn spec = .ok s') : Wrote spec s dn none s' := by
  obtain ⟨p, c, hp, hs, hdel⟩ := deleteEntry_eq_ok h
  obtain ⟨old, -, hw⟩ := Index.deleteEntryIndexed_eq_ok hdel
  exact ⟨p, c, _, hp, hs, hw⟩

theorem allocateRid_of_resolve {s s' : Store} {dn : Dn} {p : Partition} {rid : Nat}
    (hp : s.registry.resolve dn = some p) (h : s.allocateRid dn = .ok (rid, s')) :
    ∃ c, RidPool.allocateRid (s.clusters p.cluster) p.id = .ok (rid, c) ∧
      s' = s.setCluster p.cluster c := by
  rw [allocateRid, resolve, hp] at h
  simp only [Outcome.ok_bind, client_of_resolve hp] at h
  obtain ⟨⟨n, c⟩, hc, h⟩ := Outcome.bind_eq_ok.mp h
  cases h
  exact ⟨c, hc, rfl⟩

theorem allocateRid_eq_ok {s s' : Store} {dn : Dn} {rid : Nat}
    (h : s.allocateRid dn = .ok (rid, s')) :
    ∃ p, s.registry.resolve dn = some p ∧ s' = s.setCluster p.cluster
      { s.clusters p.cluster with
        kv := TxnOp.applyAll (RidPool.advance p.id rid) (s.clusters p.cluster).kv } := by
  obtain ⟨p, hp, -⟩ := Outcome.bind_eq_ok.mp h
  obtain ⟨c, hc, rfl⟩ := allocateRid_of_resolve (resolve_eq_ok hp) h
  obtain ⟨compare, -, hswap⟩ := RidPool.allocateRid_eq_ok hc
  exact ⟨p, resolve_eq_ok hp, by rw [(RidPool.swap_eq_true hswap).2]⟩

/-- The cluster of `dn` serves a write of `e` there: it answers the read of the
old entry and takes the transaction. -/
def Accepts (s : Store) (dn : Dn) (e : Entry) (spec : IndexSpec) : Prop :=
  ∃ p old, s.registry.resolve dn = some p ∧
    (s.clusters p.cluster).readFailure (Key.entryKey p.id dn) = none ∧
    (s.clusters p.cluster).kv.find? (Key.entryKey p.id dn) = old.map .entry ∧
    (s.clusters p.cluster).writeFailure (Index.putOps p.id dn old e spec) = none

def Removable (s : Store) (dn : Dn) (spec : IndexSpec) : Prop :=
  ∃ p old, s.registry.resolve dn = some p ∧
    (s.clusters p.cluster).readFailure (Key.entryKey p.id dn) = none ∧
    (s.clusters p.cluster).kv.find? (Key.entryKey p.id dn) = old.map .entry ∧
    ∀ e, old = some e →
      (s.clusters p.cluster).writeFailure (Index.deleteOps p.id dn e spec) = none

theorem readEntry_of_find? {c : Cluster} {pid : PartitionId} {dn : Dn} {old : Option Entry}
    (hread : c.readFailure (Key.entryKey pid dn) = none)
    (hold : c.kv.find? (Key.entryKey pid dn) = old.map .entry) :
    Index.readEntry c pid dn = .ok old := by
  rw [Index.readEntry, Cluster.get, hread, hold]
  cases old with
  | none => rfl
  | some e => rfl

theorem readFailure_of_readEntry {c : Cluster} {pid : PartitionId} {dn : Dn} {old : Option Entry}
    (h : Index.readEntry c pid dn = .ok old) : c.readFailure (Key.entryKey pid dn) = none := by
  cases hf : c.readFailure (Key.entryKey pid dn) with
  | none => rfl
  | some e =>
    rw [Index.readEntry, Cluster.get, hf] at h
    cases h

theorem putEntry_ok_iff {s : Store} {dn : Dn} {e : Entry} {spec : IndexSpec} :
    (∃ s', s.putEntry dn e spec = .ok s') ↔ s.Accepts dn e spec := by
  constructor
  · rintro ⟨s', h⟩
    obtain ⟨p, c, hp, -, hput⟩ := putEntry_eq_ok h
    obtain ⟨old, hread, htxn⟩ := Outcome.bind_eq_ok.mp hput
    refine ⟨p, old, hp, readFailure_of_readEntry hread, Index.readEntry_eq_ok hread, ?_⟩
    cases hf : (s.clusters p.cluster).writeFailure (Index.putOps p.id dn old e spec) with
    | none => rfl
    | some err =>
      rw [Cluster.txn, hf] at htxn
      cases htxn
  · rintro ⟨p, old, hp, hread, hold, hwrite⟩
    rw [putEntry, resolve, hp]
    simp only [Outcome.ok_bind, client_of_resolve hp, Index.putEntryIndexed,
      readEntry_of_find? hread hold, Cluster.txn, hwrite]
    exact ⟨_, rfl⟩

theorem deleteEntry_ok_iff {s : Store} {dn : Dn} {spec : IndexSpec} :
    (∃ s', s.deleteEntry dn spec = .ok s') ↔ s.Removable dn spec := by
  constructor
  · rintro ⟨s', h⟩
    obtain ⟨p, c, hp, -, hdel⟩ := deleteEntry_eq_ok h
    obtain ⟨old, hread, htxn⟩ := Outcome.bind_eq_ok.mp hdel
    refine ⟨p, old, hp, readFailure_of_readEntry hread, Index.readEntry_eq_ok hread, ?_⟩
    rintro e rfl
    cases hf : (s.clusters p.cluster).writeFailure (Index.deleteOps p.id dn e spec) with
    | none => rfl
    | some err =>
      simp only [Cluster.txn, hf] at htxn
      cases htxn
  · rintro ⟨p, old, hp, hread, hold, hwrite⟩
    rw [deleteEntry, resolve, hp]
    simp only [Outcome.ok_bind, client_of_resolve hp, Index.deleteEntryIndexed,
      readEntry_of_find? hread hold]
    cases old with
    | none => exact ⟨_, rfl⟩
    | some e =>
      simp only [Cluster.txn, hwrite e rfl]
      exact ⟨_, rfl⟩

theorem getEntry_of_find? {s : Store} {dn : Dn} {p : Partition} {e : Option Entry}
    (hp : s.registry.resolve dn = some p)
    (hread : (s.clusters p.cluster).readFailure (Key.entryKey p.id dn) = none)
    (he : (s.clusters p.cluster).kv.find? (Key.entryKey p.id dn) = e.map .entry) :
    s.getEntry dn = .ok e := by
  rw [getEntry, resolve, hp]
  simp only [Outcome.ok_bind, client_of_resolve hp]
  exact readEntry_of_find? hread he

theorem getEntry_putEntry {s s' : Store} {dn base : Dn} {e : Entry} {spec : IndexSpec}
    (h : s.putEntry dn e spec = .ok s') (hsame : base.Same dn) :
    s'.getEntry base = .ok (some e) := by
  obtain ⟨p, c, hp, rfl, hput⟩ := putEntry_eq_ok h
  obtain ⟨old, -, hw⟩ := Index.putEntryIndexed_eq_ok hput
  obtain ⟨old', hread, -⟩ := Outcome.bind_eq_ok.mp hput
  have hbase : (s.setCluster p.cluster c).registry.resolve base = some p := by
    rw [setCluster_registry, resolve_congr _ hsame, hp]
  refine getEntry_of_find? hbase ?_ ?_
  · rw [setCluster_self, Key.entryKey_congr hsame, (Index.putEntryIndexed_failures hput).1]
    exact readFailure_of_readEntry hread
  · rw [setCluster_self, Key.entryKey_congr hsame]
    exact View.Commit.at_self hw

def KeyOf (k : Str) (dn : Dn) : Prop :=
  ∃ pid, k = Key.entryKey pid dn ∨ ∃ attr v, k = Key.indexKey pid attr v dn

section Step

variable {spec : IndexSpec} {s s' : Store} {dn : Dn} {new : Option Entry}

theorem Wrote.registry (h : Wrote spec s dn new s') : s'.registry = s.registry := by
  obtain ⟨p, c, -, -, rfl, -⟩ := h
  rfl

theorem Wrote.frame (h : Wrote spec s dn new s') {k : Str} (hk : ¬ KeyOf k dn) (ref : ClusterRef) :
    (s'.clusters ref).kv.find? k = (s.clusters ref).kv.find? k := by
  obtain ⟨p, c, dropped, -, rfl, hw⟩ := h
  by_cases href : ref = p.cluster
  · subst href
    rw [setCluster_self, hw.writes, if_neg, if_neg, if_neg]
    · intro hd
      obtain ⟨attr, v, heq⟩ := hw.drops k hd
      exact hk ⟨p.id, .inr ⟨attr, v, heq⟩⟩
    · intro heq
      exact hk ⟨p.id, .inl heq⟩
    · intro hm
      obtain ⟨attr, v, heq⟩ := Index.exists_of_mem_keysOf hm
      exact hk ⟨p.id, .inr ⟨attr, v, heq⟩⟩
  · rw [setCluster_of_ne s c href]

theorem Wrote.entries (h : Wrote spec s dn new s') {ref : ClusterRef} {k : Str} {e : Entry}
    (hk : (s'.clusters ref).kv.find? k = some (.entry e)) :
    (s.clusters ref).kv.find? k = some (.entry e) ∨ new = some e := by
  obtain ⟨p, c, dropped, -, rfl, hw⟩ := h
  by_cases href : ref = p.cluster
  · subst href
    rw [setCluster_self, hw.writes] at hk
    split at hk
    · cases hk
    · split at hk
      · cases new with
        | none => cases hk
        | some e' =>
          cases hk
          exact .inr rfl
      · split at hk
        · cases hk
        · exact .inl hk
  · rw [setCluster_of_ne s c href] at hk
    exact .inl hk

theorem find?_of_writes {c c' : Cluster} {pid q : PartitionId} {d : Dn} {dropped : List Str}
    (hw : Index.Writes pid spec dn dropped new c c')
    (hkey : Key.entryKey q d ≠ Key.entryKey pid dn) :
    c'.kv.find? (Key.entryKey q d) = c.kv.find? (Key.entryKey q d) := by
  rw [hw.writes, if_neg, if_neg hkey, if_neg]
  · intro hd
    obtain ⟨attr, v, heq⟩ := hw.drops _ hd
    exact Key.entryKey_ne_indexKey _ _ _ _ _ _ heq
  · intro hm
    obtain ⟨attr, v, heq⟩ := Index.exists_of_mem_keysOf hm
    exact Key.entryKey_ne_indexKey _ _ _ _ _ _ heq

theorem Wrote.entryAt_self (h : Wrote spec s dn new s') : s'.entryAt dn = new.map .entry := by
  obtain ⟨p, c, dropped, hp, rfl, hw⟩ := h
  rw [entryAt_of_resolve (p := p) (by exact hp), setCluster_self]
  exact View.Commit.at_self hw

theorem Wrote.entryAt_of_ne (h : Wrote spec s dn new s') {d : Dn}
    (hne : s.registry.resolve d ≠ s.registry.resolve dn ∨ d.path ≠ dn.path) :
    s'.entryAt d = s.entryAt d := by
  obtain ⟨p, c, dropped, hp, rfl, hw⟩ := h
  cases hq : s.registry.resolve d with
  | none => simp [entryAt, hq]
  | some q =>
    rw [entryAt_of_resolve (p := q) (by exact hq), entryAt_of_resolve hq]
    by_cases href : q.cluster = p.cluster
    · have hkey : Key.entryKey q.id d ≠ Key.entryKey p.id dn := by
        intro hkey
        obtain ⟨hid, hpath⟩ := Key.entryKey_inj.mp hkey
        rw [hq, hp, resolve_eq_of_id hq hp hid] at hne
        simp [hpath] at hne
      rw [href, setCluster_self]
      exact find?_of_writes hw hkey
    · rw [setCluster_of_ne s c href]

theorem find?_allocateRid {rid : Nat} (h : s.allocateRid dn = .ok (rid, s')) {k : Str}
    (hk : ∀ pid, k ≠ RidPool.poolKey pid) (ref : ClusterRef) :
    (s'.clusters ref).kv.find? k = (s.clusters ref).kv.find? k := by
  obtain ⟨p, -, rfl⟩ := allocateRid_eq_ok h
  by_cases href : ref = p.cluster
  · subst href
    rw [setCluster_self, RidPool.find?_advance, if_neg (hk p.id)]
  · rw [setCluster_of_ne s _ href]

theorem entries_allocateRid {rid : Nat} (h : s.allocateRid dn = .ok (rid, s')) {ref : ClusterRef}
    {k : Str} {e : Entry} (hk : (s'.clusters ref).kv.find? k = some (.entry e)) :
    (s.clusters ref).kv.find? k = some (.entry e) := by
  obtain ⟨p, -, rfl⟩ := allocateRid_eq_ok h
  by_cases href : ref = p.cluster
  · subst href
    rw [setCluster_self, RidPool.find?_advance] at hk
    split at hk
    · cases hk
    · exact hk
  · rwa [setCluster_of_ne s _ href] at hk

/-- No difference to a reader of entries, nor in which requests fail. -/
structure Alike (s s' : Store) : Prop where
  registry : s'.registry = s.registry
  readFailure : ∀ ref, (s'.clusters ref).readFailure = (s.clusters ref).readFailure
  writeFailure : ∀ ref, (s'.clusters ref).writeFailure = (s.clusters ref).writeFailure
  entries : ∀ ref pid d, (s'.clusters ref).kv.find? (Key.entryKey pid d) =
    (s.clusters ref).kv.find? (Key.entryKey pid d)

theorem Alike.refl (s : Store) : Alike s s :=
  ⟨rfl, fun _ => rfl, fun _ => rfl, fun _ _ _ => rfl⟩

theorem Alike.entryAt (h : Alike s s') (d : Dn) : s'.entryAt d = s.entryAt d := by
  simp only [Store.entryAt, h.registry, h.entries]

theorem Alike.accepts (h : Alike s s') {d : Dn} {e : Entry} :
    s'.Accepts d e spec ↔ s.Accepts d e spec := by
  simp only [Accepts, h.registry, h.readFailure, h.writeFailure, h.entries]

theorem Alike.removable (h : Alike s s') {d : Dn} : s'.Removable d spec ↔ s.Removable d spec := by
  simp only [Removable, h.registry, h.readFailure, h.writeFailure, h.entries]

theorem alike_allocateRid {rid : Nat} (h : s.allocateRid dn = .ok (rid, s')) : Alike s s' where
  registry := by
    obtain ⟨p, -, rfl⟩ := allocateRid_eq_ok h
    rfl
  readFailure := by
    obtain ⟨p, -, rfl⟩ := allocateRid_eq_ok h
    exact setCluster_congr rfl
  writeFailure := by
    obtain ⟨p, -, rfl⟩ := allocateRid_eq_ok h
    exact setCluster_congr rfl
  entries := fun ref pid d =>
    find?_allocateRid h (fun q => (RidPool.poolKey_ne_entryKey q pid d).symm) ref

theorem alike_putEntry {e : Entry} (h : s.putEntry dn e spec = .ok s')
    (hat : s.entryAt dn = some (.entry e)) : Alike s s' where
  registry := (wrote_putEntry h).registry
  readFailure := by
    obtain ⟨p, c, -, rfl, hput⟩ := putEntry_eq_ok h
    exact setCluster_congr (Index.putEntryIndexed_failures hput).1
  writeFailure := by
    obtain ⟨p, c, -, rfl, hput⟩ := putEntry_eq_ok h
    exact setCluster_congr (Index.putEntryIndexed_failures hput).2
  entries := by
    intro ref pid d
    obtain ⟨p, c, dropped, hp, rfl, hw⟩ := wrote_putEntry h
    by_cases href : ref = p.cluster
    · subst href
      rw [setCluster_self]
      by_cases hkey : Key.entryKey pid d = Key.entryKey p.id dn
      · rw [hkey, View.Commit.at_self hw, ← entryAt_of_resolve hp, hat]
        rfl
      · exact find?_of_writes hw hkey
    · rw [setCluster_of_ne s c href]

structure Created (s : Store) (dn : Dn) (e : Entry) (s' : Store) : Prop where
  vacant : s.entryAt dn = none
  stored : s'.entryAt dn = some (.entry e)
  others : ∀ p, s.registry.resolve dn = some p → ∀ ref pid d,
    (ref = p.cluster → Key.entryKey pid d ≠ Key.entryKey p.id dn) →
      (s'.clusters ref).kv.find? (Key.entryKey pid d) =
        (s.clusters ref).kv.find? (Key.entryKey pid d)

theorem created_createEntry {e : Entry} (h : s.createEntry dn e spec = .ok (true, s')) :
    Created s dn e s' := by
  obtain ⟨p, c, hp, rfl, hcreate⟩ := createEntry_eq_ok h
  obtain ⟨hfalse, -⟩ | ⟨-, habsent, hw⟩ := Index.createEntryIndexed_eq_ok hcreate
  · cases hfalse
  refine ⟨(entryAt_of_resolve hp).trans habsent, ?_, ?_⟩
  · have hwrote : Wrote spec s dn (some e) (s.setCluster p.cluster c) := ⟨p, c, [], hp, rfl, hw⟩
    exact hwrote.entryAt_self
  · intro p' hp' ref pid d hkey
    cases hp.symm.trans hp'
    by_cases href : ref = p.cluster
    · rw [href, setCluster_self]
      exact find?_of_writes hw (hkey href)
    · rw [setCluster_of_ne s c href]

theorem Created.of_alike {s₁ : Store} {e : Entry} (h : Created s₁ dn e s') (ha : Alike s s₁) :
    Created s dn e s' where
  vacant := (ha.entryAt dn).symm.trans h.vacant
  stored := h.stored
  others := by
    intro p hp ref pid d hkey
    rw [h.others p (ha.registry ▸ hp) ref pid d hkey, ha.entries]

end Step

/-- A series of writes, with RIDs drawn between them. -/
inductive Trace (spec : IndexSpec) : Store → List (Dn × Option Entry) → Store → Prop
  | nil (s : Store) : Trace spec s [] s
  | allocate {s s₁ s' : Store} {dn : Dn} {rid : Nat} {ws : List (Dn × Option Entry)} :
    s.allocateRid dn = .ok (rid, s₁) → Trace spec s₁ ws s' → Trace spec s ws s'
  | write {s s₁ s' : Store} {dn : Dn} {new : Option Entry} {ws : List (Dn × Option Entry)} :
    Wrote spec s dn new s₁ → Trace spec s₁ ws s' → Trace spec s ((dn, new) :: ws) s'

namespace Trace

variable {spec : IndexSpec} {s s' : Store} {ws : List (Dn × Option Entry)}

theorem single {dn : Dn} {new : Option Entry} (h : Wrote spec s dn new s') :
    Trace spec s [(dn, new)] s' := .write h (.nil s')

theorem append {s'' : Store} {ws' : List (Dn × Option Entry)} (h : Trace spec s ws s')
    (h' : Trace spec s' ws' s'') : Trace spec s (ws ++ ws') s'' := by
  induction h with
  | nil => exact h'
  | allocate halloc _ ih => exact .allocate halloc (ih h')
  | write hw _ ih => exact .write hw (ih h')

theorem entries (h : Trace spec s ws s') {ref : ClusterRef} {k : Str} {e : Entry}
    (hk : (s'.clusters ref).kv.find? k = some (.entry e)) :
    (s.clusters ref).kv.find? k = some (.entry e) ∨ ∃ dn, (dn, some e) ∈ ws := by
  induction h with
  | nil => exact .inl hk
  | allocate halloc _ ih =>
    obtain h | h := ih hk
    · exact .inl (entries_allocateRid halloc h)
    · exact .inr h
  | write hw _ ih =>
    obtain h | ⟨dn, h⟩ := ih hk
    · obtain h | rfl := hw.entries h
      · exact .inl h
      · exact .inr ⟨_, List.mem_cons_self⟩
    · exact .inr ⟨dn, List.mem_cons_of_mem _ h⟩

theorem each {P : Entry → Prop} (h : Trace spec s ws s') (hs : s.Each P)
    (hws : ∀ dn e, (dn, some e) ∈ ws → P e) : s'.Each P := by
  intro ref k e hk
  obtain hk | ⟨dn, hmem⟩ := h.entries hk
  · exact hs ref k e hk
  · exact hws dn e hmem

theorem frame (h : Trace spec s ws s') {k : Str} (hk : ∀ w ∈ ws, ¬ KeyOf k w.1)
    (hpool : ∀ pid, k ≠ RidPool.poolKey pid) (ref : ClusterRef) :
    (s'.clusters ref).kv.find? k = (s.clusters ref).kv.find? k := by
  induction h with
  | nil => rfl
  | allocate halloc _ ih => rw [ih hk, find?_allocateRid halloc hpool]
  | write hw _ ih =>
    rw [List.forall_mem_cons] at hk
    rw [ih hk.2, hw.frame hk.1]

end Trace

end Store

end IronDirectory.Storage
