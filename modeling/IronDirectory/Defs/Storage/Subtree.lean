import IronDirectory.Defs.Naming.Subtree
import IronDirectory.Defs.Storage.IndexHistory

namespace IronDirectory.Storage

open Base Naming

namespace Tree

def dnFromTreeKey (pid : PartitionId) (rawKey : Str) : Except StoreError Dn :=
  match rawKey.stripPrefix (Key.treeRoot pid) with
  | none => .error (.partition (.invalidDn rawKey .notUnderTreeRoot))
  | some suffix => (Dn.parse (commaForm suffix)).mapError .partition

-- The base does not match the range below it, so it is read on its own.
def scanSubtree (c : Cluster) (pid : PartitionId) (dn : Dn) :
    Except StoreError (List (Str × Value)) := do
  let out ← c.getPrefix (Key.subtreePrefix pid dn)
  match ← c.get (Key.entryKey pid dn) with
  | some v => return (Key.entryKey pid dn, v) :: out
  | none => return out

def readRow (pid : PartitionId) (row : Str × Value) : Except StoreError (Dn × Entry) := do
  let dn ← dnFromTreeKey pid row.1
  let entry ← row.2.decode
  return (dn, entry)

end Tree

def Store.scanSubtree (s : Store) (dn : Dn) : Except StoreError (List (Dn × Entry)) := do
  let p ← s.resolve dn
  let ref ← s.client p.id
  let rows ← Tree.scanSubtree (s.clusters ref) p.id dn
  rows.mapM (Tree.readRow p.id)

namespace Tree

@[simp] theorem dnFromTreeKey_entryKey (pid : PartitionId) (d : Dn) :
    dnFromTreeKey pid (Key.entryKey pid d) = (Dn.parse (commaForm d.path)).mapError .partition := by
  rw [dnFromTreeKey, Key.entryKey_eq, Str.stripPrefix_append]

theorem readRow_eq_ok {pid : PartitionId} {k : Str} {v : Value} {dn : Dn} {e : Entry} :
    readRow pid (k, v) = .ok (dn, e) ↔ dnFromTreeKey pid k = .ok dn ∧ v = .entry e := by
  cases v with
  | entry e' => simp [readRow, Outcome.bind_eq_ok, Value.decode]
  | text t => simp [readRow, Outcome.bind_eq_ok, Value.decode]

variable {c : Cluster} {pid : PartitionId} {base : Dn}

structure Answers (c : Cluster) (pid : PartitionId) (base : Dn) : Prop where
  range : c.readFailure (Key.subtreePrefix pid base) = none
  base : c.readFailure (Key.entryKey pid base) = none

theorem Answers.exists_rows (h : Answers c pid base) :
    ∃ rows, scanSubtree c pid base = .ok rows ∧ ∀ k v, (k, v) ∈ rows ↔
      c.kv.find? k = some v ∧ (k = Key.entryKey pid base ∨ Key.subtreePrefix pid base <+: k) := by
  have hscan : ∀ k v, (k, v) ∈ c.kv.scan (fun k => (Key.subtreePrefix pid base).isPrefixOf k) ↔
      c.kv.find? k = some v ∧ Key.subtreePrefix pid base <+: k := by
    simp [OrderedMap.mem_scan_iff]
  rw [scanSubtree, Cluster.getPrefix, h.range, Cluster.get, h.base, Outcome.ok_bind,
    Outcome.ok_bind]
  cases hbase : c.kv.find? (Key.entryKey pid base) with
  | none =>
    refine ⟨_, rfl, fun k v => ?_⟩
    rw [hscan]
    constructor
    · exact fun hk => ⟨hk.1, .inr hk.2⟩
    · rintro ⟨hk, rfl | hp⟩
      · cases hbase.symm.trans hk
      · exact ⟨hk, hp⟩
  | some w =>
    refine ⟨_, rfl, fun k v => ?_⟩
    rw [List.mem_cons, hscan, Prod.mk.injEq]
    constructor
    · rintro (⟨rfl, rfl⟩ | hk)
      · exact ⟨hbase, .inl rfl⟩
      · exact ⟨hk.1, .inr hk.2⟩
    · rintro ⟨hk, rfl | hp⟩
      · exact .inl ⟨rfl, by simpa using hk.symm.trans hbase⟩
      · exact .inr ⟨hk, hp⟩

def HoldsOnly (c : Cluster) (pid : PartitionId) (names : Set Dn) : Prop :=
  ∀ k v, c.kv.find? k = some v → Key.treeRoot pid <+: k →
    ∃ d ∈ names, k = Key.entryKey pid d ∧ ∃ e, v = .entry e

/-- The scan reports what is stored at or below the base, each entry under the
name it was stored under, and nothing else. -/
structure Reports (c : Cluster) (pid : PartitionId) (names : Set Dn) (base : Dn)
    (rows : List (Dn × Entry)) : Prop where
  sound : ∀ row ∈ rows, ∃ d ∈ names, row.1.Same d ∧
    c.kv.find? (Key.entryKey pid d) = some (.entry row.2)
  complete : ∀ d ∈ names, ∀ e, c.kv.find? (Key.entryKey pid d) = some (.entry e) →
    d.isWithin base = true → base.isEmpty = false → ∃ row ∈ rows, row.1.Same d ∧ row.2 = e

/-- The keys of these names can be inverted, and no scan trips over them. -/
structure Invertible (pid : PartitionId) (names : Set Dn) : Prop where
  reads_back : ∀ d ∈ names, ∃ e, dnFromTreeKey pid (Key.entryKey pid d) = .ok e ∧ e.Same d
  injective : ∀ d ∈ names, ∀ d' ∈ names, Key.entryKey pid d = Key.entryKey pid d' → d.Same d'
  scans : ∀ (s : Store) (p : Partition) (base : Dn), p.id = pid →
    s.registry.resolve base = some p → Answers (s.clusters p.cluster) pid base →
    HoldsOnly (s.clusters p.cluster) pid names →
    ∃ rows, s.scanSubtree base = .ok rows ∧ Reports (s.clusters p.cluster) pid names base rows

theorem isPrefix_treeRoot {k : Str}
    (h : k = Key.entryKey pid base ∨ Key.subtreePrefix pid base <+: k) :
    Key.treeRoot pid <+: k := by
  have hroot : Key.treeRoot pid <+: Key.entryKey pid base := List.prefix_append _ _
  cases h with
  | inl h => rwa [h]
  | inr h => exact (hroot.trans (List.prefix_append _ _)).trans h

theorem entryKey_of_isWithin {d : Dn} (h : d.isWithin base = true) (hb : base.isEmpty = false) :
    Key.entryKey pid d = Key.entryKey pid base ∨
      Key.subtreePrefix pid base <+: Key.entryKey pid d := by
  obtain ⟨lower, upper, hd, hsame⟩ := Dn.isWithin_iff.mp h
  cases lower with
  | nil =>
    obtain ⟨rdns⟩ := d
    obtain rfl : rdns = upper := hd
    exact .inl (Key.entryKey_congr hsame)
  | cons r lower =>
    rw [Key.subtreePrefix_isPrefix_entryKey]
    refine .inr (Key.isPrefix_of_isStrictDescendantOf (by simpa [Dn.isEmpty] using hb) ?_)
    exact Dn.isStrictDescendantOf_iff.mpr ⟨_, upper, hd, by simp, hsame⟩

theorem answers_of_scanSubtree {rows : List (Str × Value)}
    (h : scanSubtree c pid base = .ok rows) : Answers c pid base := by
  rw [scanSubtree, Outcome.bind_eq_ok] at h
  obtain ⟨out, hout, h⟩ := h
  obtain ⟨v, hv, -⟩ := Outcome.bind_eq_ok.mp h
  constructor
  · rw [Cluster.getPrefix] at hout
    split at hout
    · cases hout
    · assumption
  · rw [Cluster.get] at hv
    split at hv
    · cases hv
    · assumption

theorem mem_scanSubtree {rows : List (Str × Value)} (h : scanSubtree c pid base = .ok rows)
    {k : Str} {v : Value} : (k, v) ∈ rows ↔
      c.kv.find? k = some v ∧ (k = Key.entryKey pid base ∨ Key.subtreePrefix pid base <+: k) := by
  obtain ⟨rows', h', hmem⟩ := (answers_of_scanSubtree h).exists_rows
  cases h.symm.trans h'
  exact hmem k v

theorem length_scanSubtree_le {rows : List (Str × Value)}
    (h : scanSubtree c pid base = .ok rows) : rows.length ≤ c.kv.entries.length := by
  have hread := answers_of_scanSubtree h
  rw [scanSubtree, Cluster.getPrefix, hread.range, Cluster.get, hread.base, Outcome.ok_bind,
    Outcome.ok_bind] at h
  cases hbase : c.kv.find? (Key.entryKey pid base) with
  | none =>
    rw [hbase] at h
    cases h
    exact List.length_filter_le _ _
  | some v =>
    rw [hbase] at h
    cases h
    refine List.length_filter_lt_length_iff_exists.mpr
      ⟨_, OrderedMap.mem_entries_iff.mpr hbase, ?_⟩
    simpa using Key.not_subtreePrefix_isPrefix_self pid base

theorem not_subtreePrefix_of_isEmpty {d : Dn} (hw : d.Wf) (hl : d.Legible)
    (hb : base.isEmpty = true) : ¬ Key.subtreePrefix pid base <+: Key.entryKey pid d := by
  obtain ⟨rdns⟩ := base
  obtain rfl : rdns = [] := by simpa [Dn.isEmpty] using hb
  rw [Key.subtreePrefix_isPrefix_entryKey, Dn.path_isPrefix_iff]
  rintro (⟨lower, upper, hd, -, hupper, hpath⟩ | ⟨lower, r, upper, u, v, hd, hr, -⟩)
  · exact Dn.path_ne_nil (fun r hr => hw r (hd ▸ List.mem_append_right _ hr)) hupper hpath
  · have hmem : r ∈ d.rdns := by
      rw [hd]
      simp
    refine Rdn.slash_not_mem (hl.of_mem hmem) ?_
    rw [hr]
    simp

theorem inRange_iff {d : Dn} (hw : d.Wf) (hl : d.Legible) (hbw : base.Wf) (hbl : base.Legible) :
    (Key.entryKey pid d = Key.entryKey pid base ∨
      Key.subtreePrefix pid base <+: Key.entryKey pid d) ↔
      d.isWithin base = true ∧ (base.isEmpty = true → d.isEmpty = true) := by
  have hsame : Key.entryKey pid d = Key.entryKey pid base → d.Same base := by
    intro h
    rw [Key.entryKey_inj] at h
    exact hl.path_inj hw hbw hbl h.2
  have hself : d.Same base → d.isWithin base = true := fun h =>
    Dn.isWithin_iff.mpr ⟨[], d.rdns, rfl, h⟩
  cases hb : base.isEmpty with
  | true =>
    constructor
    · rintro (h | h)
      · exact ⟨hself (hsame h), fun _ => (Dn.isEmpty_congr (hsame h)).trans hb⟩
      · exact absurd h (not_subtreePrefix_of_isEmpty hw hl hb)
    · rintro ⟨-, hd⟩
      exact .inl (Key.entryKey_congr (Dn.same_of_isEmpty (hd rfl) hb))
  | false =>
    constructor
    · rintro (h | h)
      · exact ⟨hself (hsame h), nofun⟩
      · rw [← List.isPrefixOf_iff_prefix,
          (Key.subtreePrefix_iff_descendant pid hb).mpr (Dn.Legible.aligned hbw hw hbl hl),
          Dn.isStrictDescendantOf, Bool.and_eq_true] at h
        exact ⟨h.2, nofun⟩
    · rintro ⟨h, -⟩
      exact entryKey_of_isWithin h hb

theorem dnFromTreeKey_eq_folded {d : Dn} (h : d.Wf) (hl : d.Legible) :
    dnFromTreeKey pid (Key.entryKey pid d) = .ok d.folded := by
  rw [dnFromTreeKey_entryKey, hl.commaForm_path, hl.parse_keyForm h]
  rfl

theorem dnFromTreeKey_of_legible {d : Dn} (h : d.Wf) (hl : d.Legible) :
    ∃ e, dnFromTreeKey pid (Key.entryKey pid d) = .ok e ∧ e.Same d := by
  simpa using hl.reads_back h

theorem scans_of_legible {names : Set Dn} (hwf : ∀ d ∈ names, d.Wf)
    (hl : ∀ d ∈ names, d.Legible) {s : Store} {p : Partition}
    (hres : s.registry.resolve base = some p)
    (hread : Answers (s.clusters p.cluster) p.id base)
    (hold : HoldsOnly (s.clusters p.cluster) p.id names) :
    ∃ rows, s.scanSubtree base = .ok rows ∧
      Reports (s.clusters p.cluster) p.id names base rows := by
  obtain ⟨raw, hraw, hmem⟩ := hread.exists_rows
  -- every row in the range is read back under the name it was stored under
  have hrow : ∀ row ∈ raw, ∃ d ∈ names, ∃ e dn, row = (Key.entryKey p.id d, .entry e) ∧
      readRow p.id row = .ok (dn, e) ∧ dn.Same d := by
    rintro ⟨k, v⟩ hkv
    obtain ⟨hfind, hrange⟩ := (hmem k v).mp hkv
    obtain ⟨d, hd, rfl, e, rfl⟩ := hold k v hfind (isPrefix_treeRoot hrange)
    obtain ⟨dn, hdn, hsame⟩ := dnFromTreeKey_of_legible (hwf d hd) (hl d hd)
    exact ⟨d, hd, e, dn, rfl, readRow_eq_ok.mpr ⟨hdn, rfl⟩, hsame⟩
  obtain ⟨rows, hrows⟩ : ∃ rows, raw.mapM (readRow p.id) = .ok rows := by
    apply Outcome.exists_mapM_eq_ok
    intro row hr
    obtain ⟨d, -, e, dn, -, hdn, -⟩ := hrow row hr
    exact ⟨(dn, e), hdn⟩
  refine ⟨rows, ?_, ?_, ?_⟩
  · rw [Store.scanSubtree, Store.resolve, hres]
    simp only [Outcome.ok_bind, Store.client_of_resolve hres, hraw, hrows]
  · intro row hr
    obtain ⟨⟨k, v⟩, hkv, hread⟩ := (Outcome.mem_of_mapM_eq_ok hrows row).mp hr
    obtain ⟨d, hd, e, dn, heq, hdn, hsame⟩ := hrow _ hkv
    obtain rfl : (dn, e) = row := by simpa using hdn.symm.trans hread
    cases heq
    exact ⟨d, hd, hsame, ((hmem _ _).mp hkv).1⟩
  · intro d hd e hfind hwithin hb
    have hkv := (hmem _ _).mpr ⟨hfind, entryKey_of_isWithin hwithin hb⟩
    obtain ⟨dn, hdn, hsame⟩ := dnFromTreeKey_of_legible (hwf d hd) (hl d hd)
    refine ⟨(dn, e), (Outcome.mem_of_mapM_eq_ok hrows _).mpr ⟨_, hkv, ?_⟩, hsame, rfl⟩
    exact readRow_eq_ok.mpr ⟨hdn, rfl⟩

/-- The keys of parsed names are invertible exactly when the names are legible. -/
theorem invertible_iff_legible (pid : PartitionId) (names : Set Dn)
    (hparsed : ∀ d ∈ names, ∃ t, Dn.parse t = .ok d) :
    Invertible pid names ↔ ∀ d ∈ names, d.Legible := by
  have hwf : ∀ d ∈ names, d.Wf := fun d hd => (hparsed d hd).elim fun _ => Dn.parse_wf
  constructor
  · intro h d hd
    apply (hwf d hd).reads_back_iff.mp
    simpa using h.reads_back d hd
  · intro hl
    refine ⟨fun d hd => dnFromTreeKey_of_legible (hwf d hd) (hl d hd), ?_, ?_⟩
    · intro d hd d' hd' h
      rw [Key.entryKey_eq, Key.entryKey_eq, List.append_cancel_left_eq] at h
      exact (hl d hd).path_inj (hwf d hd) (hwf d' hd') (hl d' hd') h
    · rintro s p base rfl hres hread hold
      exact scans_of_legible hwf hl hres hread hold

open Tracked (corp corpPerson withMail)

def corpTexts : List Str :=
  ["dc=corp", "cn=Alice,dc=corp", "cn=Bob,dc=corp", "cn=Carol+uid=c7,ou=staff,dc=corp"]

theorem invertible_corpTexts : Invertible corp.id {d | ∃ t ∈ corpTexts, Dn.parse t = .ok d} := by
  refine (invertible_iff_legible corp.id _ ?_).mpr ?_
  · rintro d ⟨t, -, ht⟩
    exact ⟨t, ht⟩
  · rintro d ⟨t, hmem, ht⟩
    have hall : ∀ t ∈ corpTexts, ∀ d ∈ (Dn.parse t).toOption, d.Legible := by decide +kernel
    exact hall t hmem d (Outcome.toOption_eq_some.mpr ht)

/-- A value with a slash in it reads back as no name at all, and the entry
stored under it stops the scan of its naming context; with another value its
key is that of a different name. -/
theorem slash_not_invertible :
    Dn.parse "cn=a/b,dc=corp" = .ok (corpPerson "a/b") ∧
      (dnFromTreeKey corp.id (Key.entryKey corp.id (corpPerson "a/b"))).toOption = none ∧
      (∃ s, Store.putEntry ⟨.singleton corp, fun _ => .empty⟩ (corpPerson "a/b")
          (withMail "a@corp") (.new []) = .ok s ∧
        (s.scanSubtree corp.baseDn).toOption = none) ∧
      ∃ d, Dn.parse "cn=a/ou=b,dc=corp" = .ok (corpPerson "a/ou=b") ∧
        Dn.parse "ou=b,cn=a,dc=corp" = .ok d ∧ ¬ d.Same (corpPerson "a/ou=b") ∧
        Key.entryKey corp.id d = Key.entryKey corp.id (corpPerson "a/ou=b") :=
  ⟨rfl, rfl, ⟨_, rfl, rfl⟩, _, rfl, rfl, by decide, rfl⟩

end Tree

end IronDirectory.Storage
