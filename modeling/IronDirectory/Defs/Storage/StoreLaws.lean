import IronDirectory.Defs.Storage.IndexLaws

namespace IronDirectory.Storage

open Base Naming

theorem Cluster.txn_eq_ok {c c' : Cluster} {ops : List (TxnOp Str Value)} (h : c.txn ops = .ok c') :
    c'.kv = TxnOp.applyAll ops c.kv := by
  unfold txn at h
  split at h
  · cases h
  · cases h
    rfl

theorem Cluster.get_eq_ok {c : Cluster} {k : Str} {v : Option Value} (h : c.get k = .ok v) :
    c.kv.find? k = v := by
  unfold get at h
  split at h
  · cases h
  · cases h
    rfl

theorem Cluster.txnIfAbsent_eq_ok {c c' : Cluster} {k : Str} {ops : List (TxnOp Str Value)}
    {b : Bool} (h : c.txnIfAbsent k ops = .ok (b, c')) :
    (b = false ∧ c' = c) ∨
      (b = true ∧ c.kv.find? k = none ∧ c'.kv = TxnOp.applyAll ops c.kv) := by
  unfold txnIfAbsent at h
  split at h
  · cases h
  · split at h
    case h_1 => cases h; exact .inl ⟨rfl, rfl⟩
    case h_2 habs => cases h; exact .inr ⟨rfl, habs, rfl⟩

namespace Index

open View

variable {c c' : Cluster} {pid : PartitionId} {dn : Dn} {spec : IndexSpec}

theorem readEntry_eq_ok {old : Option Entry} (h : readEntry c pid dn = .ok old) :
    c.kv.find? (Key.entryKey pid dn) = old.map .entry := by
  obtain ⟨v, hget, hrest⟩ := Outcome.bind_eq_ok.mp h
  rw [Cluster.get_eq_ok hget]
  cases v with
  | none =>
    cases hrest
    rfl
  | some v =>
    cases v with
    | entry e =>
      cases hrest
      rfl
    | text s => cases hrest

abbrev Writes (pid : PartitionId) (spec : IndexSpec) (dn : Dn) (dropped : List Str)
    (new : Option Entry) (c c' : Cluster) : Prop :=
  Commit pid spec dn dropped new c.kv.find? c'.kv.find?

theorem Writes.view {dropped : List Str} {new : Option Entry}
    (h : Writes pid spec dn dropped new c c') :
    Commit pid spec dn dropped new (c.view pid) (c'.view pid) where
  drops := h.drops
  writes := by
    intro k
    simp only [Cluster.view, h.writes]
    by_cases hroot : (Key.partitionRoot pid).isPrefixOf k
    · simp only [hroot, if_true]
    · have hindex : ∀ attr v, k ≠ Key.indexKey pid attr v dn := by
        intro attr v heq
        rw [heq] at hroot
        exact hroot (by simpa using Key.partitionRoot_isPrefix_indexKey.mpr rfl)
      have hentry : k ≠ Key.entryKey pid dn := by
        intro heq
        rw [heq] at hroot
        exact hroot (by simpa using Key.partitionRoot_isPrefix_entryKey.mpr rfl)
      have hnew : k ∉ keysOf pid dn new spec := by
        intro hk
        obtain ⟨attr, v, heq⟩ := exists_of_mem_keysOf hk
        exact hindex attr v heq
      simp [hroot, hentry, hnew]

theorem Writes.view_of_ne {dropped : List Str} {new : Option Entry} {q : PartitionId}
    (h : Writes pid spec dn dropped new c c') (hq : q ≠ pid) : c'.view q = c.view q := by
  funext k
  by_cases hroot : Key.partitionRoot q <+: k
  · rw [c'.view_of_isPrefix hroot, c.view_of_isPrefix hroot, h.writes, if_neg, if_neg, if_neg]
    · intro hd
      obtain ⟨attr, v, rfl⟩ := h.drops k hd
      exact hq (Key.partitionRoot_isPrefix_indexKey.mp hroot)
    · rintro rfl
      exact hq (Key.partitionRoot_isPrefix_entryKey.mp hroot)
    · intro hk
      obtain ⟨attr, v, rfl⟩ := exists_of_mem_keysOf hk
      exact hq (Key.partitionRoot_isPrefix_indexKey.mp hroot)
  · have hb : ¬ (Key.partitionRoot q).isPrefixOf k = true := by simpa using hroot
    rw [Cluster.view, Cluster.view, if_neg hb, if_neg hb]

theorem writes_putOps (old : Option Entry) (e : Entry)
    (h : c'.kv = TxnOp.applyAll (putOps pid dn old e spec) c.kv) :
    Writes pid spec dn (keysOf pid dn old spec) (some e) c c' where
  drops := fun _ => exists_of_mem_keysOf
  writes := by
    intro k
    rw [h, find?_putOps]
    rfl

theorem writes_deleteOps (old : Entry)
    (h : c'.kv = TxnOp.applyAll (deleteOps pid dn old spec) c.kv) :
    Writes pid spec dn (keysOf pid dn (some old) spec) none c c' where
  drops := fun _ => exists_of_mem_keysOf
  writes := by
    intro k
    rw [h, find?_deleteOps]
    simp

theorem putEntryIndexed_eq_ok {e : Entry} (h : putEntryIndexed c pid dn e spec = .ok c') :
    ∃ old, c.kv.find? (Key.entryKey pid dn) = old.map .entry ∧
      Writes pid spec dn (keysOf pid dn old spec) (some e) c c' := by
  obtain ⟨old, hread, htxn⟩ := Outcome.bind_eq_ok.mp h
  exact ⟨old, readEntry_eq_ok hread, writes_putOps old e (Cluster.txn_eq_ok htxn)⟩

theorem putEntryIndexed_failures {e : Entry} (h : putEntryIndexed c pid dn e spec = .ok c') :
    c'.readFailure = c.readFailure ∧ c'.writeFailure = c.writeFailure := by
  obtain ⟨old, -, htxn⟩ := Outcome.bind_eq_ok.mp h
  unfold Cluster.txn at htxn
  split at htxn
  · cases htxn
  · cases htxn
    exact ⟨rfl, rfl⟩

theorem createEntryIndexed_eq_ok {e : Entry} {b : Bool}
    (h : createEntryIndexed c pid dn e spec = .ok (b, c')) :
    (b = false ∧ c' = c) ∨ (b = true ∧ c.kv.find? (Key.entryKey pid dn) = none ∧
      Writes pid spec dn [] (some e) c c') := by
  cases Cluster.txnIfAbsent_eq_ok h with
  | inl h => exact .inl h
  | inr h =>
    obtain ⟨hb, habs, hkv⟩ := h
    exact .inr ⟨hb, habs, writes_putOps none e (createOps_eq pid dn e spec ▸ hkv)⟩

theorem deleteEntryIndexed_eq_ok (h : deleteEntryIndexed c pid dn spec = .ok c') :
    ∃ old, c.kv.find? (Key.entryKey pid dn) = old.map .entry ∧
      Writes pid spec dn (keysOf pid dn old spec) none c c' := by
  obtain ⟨old, hread, hrest⟩ := Outcome.bind_eq_ok.mp h
  refine ⟨old, readEntry_eq_ok hread, ?_⟩
  cases old with
  | some old => exact writes_deleteOps old (Cluster.txn_eq_ok hrest)
  | none =>
    cases hrest
    refine ⟨by simp, fun k => ?_⟩
    by_cases hk : k = Key.entryKey pid dn
    · simp [hk, readEntry_eq_ok hread]
    · simp [hk]

end Index

namespace Store

theorem resolve_eq_ok {s : Store} {dn : Dn} {p : Partition} (h : s.resolve dn = .ok p) :
    s.registry.resolve dn = some p := by
  unfold resolve at h
  split at h
  · cases h
  · cases h
    assumption

theorem client_of_resolve {s : Store} {dn : Dn} {p : Partition}
    (h : s.registry.resolve dn = some p) : s.client p.id = .ok p.cluster := by
  have hget := PartitionRegistry.mem_iter_iff.mp (PartitionRegistry.resolve_mem h).1
  rw [client, hget]

theorem putEntry_eq_ok {s s' : Store} {dn : Dn} {e : Entry} {spec : IndexSpec}
    (h : s.putEntry dn e spec = .ok s') :
    ∃ p c, s.registry.resolve dn = some p ∧ s' = s.setCluster p.cluster c ∧
      Index.putEntryIndexed (s.clusters p.cluster) p.id dn e spec = .ok c := by
  obtain ⟨p, hp, h⟩ := Outcome.bind_eq_ok.mp h
  rw [client_of_resolve (resolve_eq_ok hp), Outcome.ok_bind] at h
  obtain ⟨c, hc, h⟩ := Outcome.bind_eq_ok.mp h
  cases h
  exact ⟨p, c, resolve_eq_ok hp, rfl, hc⟩

theorem createEntry_eq_ok {s s' : Store} {dn : Dn} {e : Entry} {spec : IndexSpec} {b : Bool}
    (h : s.createEntry dn e spec = .ok (b, s')) :
    ∃ p c, s.registry.resolve dn = some p ∧ s' = s.setCluster p.cluster c ∧
      Index.createEntryIndexed (s.clusters p.cluster) p.id dn e spec = .ok (b, c) := by
  obtain ⟨p, hp, h⟩ := Outcome.bind_eq_ok.mp h
  rw [client_of_resolve (resolve_eq_ok hp), Outcome.ok_bind] at h
  obtain ⟨⟨b', c⟩, hc, h⟩ := Outcome.bind_eq_ok.mp h
  cases h
  exact ⟨p, c, resolve_eq_ok hp, rfl, hc⟩

theorem createEntry_of_resolve {s : Store} {dn : Dn} {p : Partition}
    (h : s.registry.resolve dn = some p) (e : Entry) (spec : IndexSpec) :
    s.createEntry dn e spec =
      (Index.createEntryIndexed (s.clusters p.cluster) p.id dn e spec).map
        fun r => (r.1, s.setCluster p.cluster r.2) := by
  rw [createEntry, resolve, h]
  simp only [Outcome.ok_bind, client_of_resolve h]
  cases Index.createEntryIndexed (s.clusters p.cluster) p.id dn e spec with
  | error e => rfl
  | ok r => rfl

theorem deleteEntry_eq_ok {s s' : Store} {dn : Dn} {spec : IndexSpec}
    (h : s.deleteEntry dn spec = .ok s') :
    ∃ p c, s.registry.resolve dn = some p ∧ s' = s.setCluster p.cluster c ∧
      Index.deleteEntryIndexed (s.clusters p.cluster) p.id dn spec = .ok c := by
  obtain ⟨p, hp, h⟩ := Outcome.bind_eq_ok.mp h
  rw [client_of_resolve (resolve_eq_ok hp), Outcome.ok_bind] at h
  obtain ⟨c, hc, h⟩ := Outcome.bind_eq_ok.mp h
  cases h
  exact ⟨p, c, resolve_eq_ok hp, rfl, hc⟩

theorem lookupByIndex_of_resolve {s : Store} {dn : Dn} {p : Partition}
    (h : s.registry.resolve dn = some p) (attr value : Str) :
    s.lookupByIndex dn attr value =
      Index.lookupByIndex (s.clusters p.cluster) p.id attr value := by
  rw [lookupByIndex, resolve, h]
  simp only [Outcome.ok_bind, client_of_resolve h]

end Store

end IronDirectory.Storage
