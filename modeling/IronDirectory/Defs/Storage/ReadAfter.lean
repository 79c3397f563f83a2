import IronDirectory.Defs.Storage.EntryLaws
import IronDirectory.Defs.Storage.Trace

namespace IronDirectory.Storage

open Base Naming

namespace Index

variable {c c' : Cluster} {pid : PartitionId} {dn d : Dn} {spec : IndexSpec} {dropped : List Str}
  {new : Option Entry} {attr value : Str}

theorem Writes.scan_indexPrefix (hw : Writes pid spec dn dropped new c c')
    (hnew : ∀ e, new = some e → value ∉ e.valuesOf attr) :
    (c'.kv.scan fun k => (Key.indexPrefix pid attr value).isPrefixOf k) =
      (c.kv.scan fun k => (Key.indexPrefix pid attr value).isPrefixOf k).filter
        fun row => !decide (row.1 ∈ dropped) := by
  apply OrderedMap.scan_eq_filter (d := fun k => decide (k ∈ dropped))
  intro k hk
  rw [List.isPrefixOf_iff_prefix] at hk
  rw [hw.writes, if_neg, if_neg]
  · simp only [decide_eq_true_eq]
  · rintro rfl
    exact Key.not_indexRoot_isPrefix_entryKey pid pid dn
      ((Key.indexRoot_isPrefix_indexPrefix pid attr value).trans hk)
  · intro hmem
    cases new with
    | none => simp at hmem
    | some e =>
      obtain ⟨attr', -, v, hv, rfl⟩ := mem_indexKeysFor.mp hmem
      obtain ⟨-, hattr, rfl⟩ := Key.indexPrefix_isPrefix_indexKey.mp hk
      rw [← Entry.valuesOf_congr hattr] at hv
      exact hnew e rfl hv

theorem rows_of_lookupByIndex (h : lookupByIndex c pid attr value = .ok [d]) :
    c.readFailure (Key.indexPrefix pid attr value) = none ∧
      ∃ row, (c.kv.scan fun k => (Key.indexPrefix pid attr value).isPrefixOf k) = [row] := by
  obtain ⟨rows, hrows, hmap⟩ := Outcome.bind_eq_ok.mp h
  have hlen := (Outcome.mapM_eq_ok.mp hmap).length_eq
  unfold Cluster.getPrefix at hrows
  split at hrows
  · cases hrows
  · next hread =>
    cases hrows
    exact ⟨hread, List.length_eq_one_iff.mp hlen⟩

theorem Writes.lookupByIndex (hw : Writes pid spec dn dropped new c c')
    (hread : c'.readFailure = c.readFailure)
    (hnew : ∀ e, new = some e → value ∉ e.valuesOf attr)
    (h : Index.lookupByIndex c pid attr value = .ok [d]) :
    Index.lookupByIndex c' pid attr value =
      .ok (if Key.indexKey pid attr value dn ∈ dropped ∧
        (c.kv.find? (Key.indexKey pid attr value dn)).isSome then [] else [d]) := by
  obtain ⟨hnone, row, hrow⟩ := rows_of_lookupByIndex h
  have hmem : row.1 ∈ dropped ↔ Key.indexKey pid attr value dn ∈ dropped ∧
      (c.kv.find? (Key.indexKey pid attr value dn)).isSome := by
    have hself := OrderedMap.mem_scan_iff.mp (hrow ▸ List.mem_singleton_self row)
    constructor
    · intro hd
      obtain ⟨attr', v, hkey⟩ := hw.drops _ hd
      have hpfx := hself.2
      rw [List.isPrefixOf_iff_prefix, hkey] at hpfx
      obtain ⟨-, hattr, rfl⟩ := Key.indexPrefix_isPrefix_indexKey.mp hpfx
      have heq : row.1 = Key.indexKey pid attr value dn := by
        rw [hkey]
        exact Key.indexKey_inj.mpr ⟨rfl, hattr.symm, rfl, rfl⟩
      rw [← heq, hself.1]
      exact ⟨hd, rfl⟩
    · intro ⟨hd, hsome⟩
      obtain ⟨v, hv⟩ := Option.isSome_iff_exists.mp hsome
      have hin : (Key.indexKey pid attr value dn, v) ∈ [row] := by
        rw [← hrow, OrderedMap.mem_scan_iff, List.isPrefixOf_iff_prefix]
        exact ⟨hv, Key.indexPrefix_isPrefix_indexKey.mpr ⟨rfl, rfl, rfl⟩⟩
      rw [← List.mem_singleton.mp hin]
      exact hd
  rw [Index.lookupByIndex, Cluster.getPrefix, hnone, hrow] at h
  rw [Index.lookupByIndex, Cluster.getPrefix, hread, hnone, hw.scan_indexPrefix hnew, hrow]
  by_cases hd : row.1 ∈ dropped
  · rw [if_pos (hmem.mp hd)]
    simp [hd]
  · rw [if_neg (mt hmem.mpr hd)]
    simpa [hd] using h

theorem Writes.readEntry {e old : Entry} (hw : Writes pid spec dn dropped (some e) c c')
    (hread : c'.readFailure = c.readFailure) (h : Index.readEntry c pid d = .ok (some old)) :
    Index.readEntry c' pid d =
      .ok (some (if Key.entryKey pid d = Key.entryKey pid dn then e else old)) := by
  refine Store.readEntry_of_find? (hread ▸ Store.readFailure_of_readEntry h) ?_
  by_cases hkey : Key.entryKey pid d = Key.entryKey pid dn
  · rw [if_pos hkey, hkey]
    exact View.Commit.at_self hw
  · rw [if_neg hkey, View.Commit.at_entryKey hw hkey]
    exact readEntry_eq_ok h

end Index

end IronDirectory.Storage
