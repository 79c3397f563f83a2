import IronDirectory.Defs.Storage.Subtree

namespace IronDirectory.Storage.Tree

open Base Naming

def Decodes (pid : PartitionId) (d : Dn) : Prop :=
  ∃ e, dnFromTreeKey pid (Key.entryKey pid d) = .ok e ∧ e.Same d

structure StoredAs (c : Cluster) (pid : PartitionId) (d : Dn) (e : Entry) : Prop where
  wf : d.Wf
  decodes : Decodes pid d
  find : c.kv.find? (Key.entryKey pid d) = some (.entry e)

/-- The entries stored under the names of the set, each once and in the order of
their keys. -/
structure Lists (c : Cluster) (pid : PartitionId) (names : Set Dn) (rows : List (Dn × Entry)) :
    Prop where
  ordered : rows.Pairwise fun a b => Key.entryKey pid a.1 < Key.entryKey pid b.1
  sound : ∀ row ∈ rows, ∃ d ∈ names, StoredAs c pid d row.2 ∧ row.1.Same d
  complete : ∀ d ∈ names, ∀ e, StoredAs c pid d e → ∃ row ∈ rows, row.1.Same d ∧ row.2 = e

variable {c : Cluster} {pid : PartitionId} {base d d' : Dn} {e e' : Entry}

theorem decodes_iff_legible (h : d.Wf) : Decodes pid d ↔ d.Legible := by
  rw [← h.reads_back_iff, Decodes]
  simp

namespace StoredAs

theorem legible (h : StoredAs c pid d e) : d.Legible := (decodes_iff_legible h.wf).mp h.decodes

theorem dnFromTreeKey (h : StoredAs c pid d e) :
    dnFromTreeKey pid (Key.entryKey pid d) = .ok d.folded :=
  dnFromTreeKey_eq_folded h.wf h.legible

theorem entry_eq (h : StoredAs c pid d e) (h' : StoredAs c pid d' e') (hsame : d.Same d') :
    e = e' := by
  have hfind := h.find
  rw [Key.entryKey_congr hsame, h'.find] at hfind
  cases hfind
  rfl

end StoredAs

theorem exists_storedAs (h : HoldsOnly c pid {d | d.Wf ∧ Decodes pid d}) {k : Str} {v : Value}
    (hfind : c.kv.find? k = some v) (hroot : Key.treeRoot pid <+: k) :
    ∃ d e, k = Key.entryKey pid d ∧ v = .entry e ∧ StoredAs c pid d e := by
  obtain ⟨d, ⟨hw, hd⟩, rfl, e, rfl⟩ := h k v hfind hroot
  exact ⟨d, e, rfl, rfl, hw, hd, hfind⟩

theorem HoldsOnly.insert {names : Set Dn} (h : HoldsOnly c pid names) (hd : d ∈ names)
    (e : Entry) :
    HoldsOnly { c with kv := c.kv.insert (Key.entryKey pid d) (.entry e) } pid names := by
  intro k v hfind hroot
  rw [OrderedMap.find?_insert] at hfind
  split at hfind
  · next hk =>
    cases hfind
    exact ⟨d, hd, hk, e, rfl⟩
  · exact h k v hfind hroot

theorem entryKey_lt_of_isPrefix {k : Str} (h : Key.subtreePrefix pid base <+: k) :
    Key.entryKey pid base < k := by
  obtain ⟨rest, rfl⟩ := h
  have hlt : Key.entryKey pid base ++ [] < Key.entryKey pid base ++ '/' :: rest :=
    List.append_left_lt (List.nil_lt_cons _ _)
  simpa [Key.subtreePrefix] using hlt

theorem scanSubtree_sorted {rows : List (Str × Value)} (h : scanSubtree c pid base = .ok rows) :
    rows.Pairwise fun a b => a.1 < b.1 := by
  have hread := answers_of_scanSubtree h
  rw [scanSubtree, Cluster.getPrefix, hread.range, Cluster.get, hread.base, Outcome.ok_bind,
    Outcome.ok_bind] at h
  have hscan := c.kv.scan_sorted fun k => (Key.subtreePrefix pid base).isPrefixOf k
  cases hbase : c.kv.find? (Key.entryKey pid base) with
  | none =>
    rw [hbase] at h
    cases h
    exact hscan
  | some v =>
    rw [hbase] at h
    cases h
    refine List.pairwise_cons.mpr ⟨?_, hscan⟩
    rintro ⟨k, v⟩ hmem
    exact entryKey_lt_of_isPrefix (by simpa using (OrderedMap.mem_scan_iff.mp hmem).2)

theorem scanSubtree_rows {s : Store} {p : Partition} (hres : s.registry.resolve base = some p)
    (hread : Answers (s.clusters p.cluster) p.id base)
    (hold : HoldsOnly (s.clusters p.cluster) p.id {d | d.Wf ∧ Decodes p.id d}) :
    ∃ rows, s.scanSubtree base = .ok rows ∧
      rows.Pairwise (fun a b => Key.entryKey p.id a.1 < Key.entryKey p.id b.1) ∧
      rows.length ≤ (s.clusters p.cluster).kv.entries.length ∧
      ∀ dn e, (dn, e) ∈ rows ↔ ∃ d, StoredAs (s.clusters p.cluster) p.id d e ∧ dn = d.folded ∧
        (Key.entryKey p.id d = Key.entryKey p.id base ∨
          Key.subtreePrefix p.id base <+: Key.entryKey p.id d) := by
  obtain ⟨raw, hraw, -⟩ := hread.exists_rows
  have hrow : ∀ row ∈ raw, ∃ d e, row = (Key.entryKey p.id d, .entry e) ∧
      StoredAs (s.clusters p.cluster) p.id d e ∧ readRow p.id row = .ok (d.folded, e) := by
    rintro ⟨k, v⟩ hkv
    obtain ⟨hfind, hrange⟩ := (mem_scanSubtree hraw).mp hkv
    obtain ⟨d, e, rfl, rfl, hstored⟩ := exists_storedAs hold hfind (isPrefix_treeRoot hrange)
    exact ⟨d, e, rfl, hstored, readRow_eq_ok.mpr ⟨hstored.dnFromTreeKey, rfl⟩⟩
  obtain ⟨rows, hrows⟩ : ∃ rows, raw.mapM (readRow p.id) = .ok rows := by
    apply Outcome.exists_mapM_eq_ok
    intro row hr
    obtain ⟨d, e, -, -, hdn⟩ := hrow row hr
    exact ⟨_, hdn⟩
  refine ⟨rows, ?_, ?_, ?_, fun dn e => ?_⟩
  · rw [Store.scanSubtree, Store.resolve, hres]
    simp only [Outcome.ok_bind, Store.client_of_resolve hres, hraw, hrows]
  · refine Outcome.pairwise_of_mapM_eq_ok hrows (scanSubtree_sorted hraw) ?_
    intro x hx x' hx' y y' hlt hy hy'
    obtain ⟨d, e, rfl, -, hd⟩ := hrow x hx
    obtain ⟨d', e', rfl, -, hd'⟩ := hrow x' hx'
    cases hd.symm.trans hy
    cases hd'.symm.trans hy'
    rwa [Key.entryKey_congr d.folded_same, Key.entryKey_congr d'.folded_same]
  · rw [← (Outcome.mapM_eq_ok.mp hrows).length_eq]
    exact length_scanSubtree_le hraw
  · rw [Outcome.mem_of_mapM_eq_ok hrows]
    constructor
    · rintro ⟨row, hr, hread⟩
      obtain ⟨d, e', rfl, hstored, hdn⟩ := hrow row hr
      cases hdn.symm.trans hread
      exact ⟨d, hstored, rfl, ((mem_scanSubtree hraw).mp hr).2⟩
    · rintro ⟨d, hstored, rfl, hrange⟩
      exact ⟨_, (mem_scanSubtree hraw).mpr ⟨hstored.find, hrange⟩,
        readRow_eq_ok.mpr ⟨hstored.dnFromTreeKey, rfl⟩⟩

theorem inRange_iff_of_storedAs (h : StoredAs c pid d e) (hbw : base.Wf) (hb : Decodes pid base) :
    (Key.entryKey pid d = Key.entryKey pid base ∨
      Key.subtreePrefix pid base <+: Key.entryKey pid d) ↔
      d.isWithin base = true ∧ (base.isEmpty = true → d.isEmpty = true) :=
  inRange_iff h.wf h.legible hbw ((decodes_iff_legible hbw).mp hb)

end IronDirectory.Storage.Tree
