import IronDirectory.Defs.Base.DerivedIndex
import IronDirectory.Defs.Naming.KeyLaws
import IronDirectory.Defs.Storage.Store

namespace IronDirectory.Storage

open Base Naming

namespace Index

theorem mem_indexKeysFor {pid : PartitionId} {dn : Dn} {e : Entry} {spec : IndexSpec} {k : Str} :
    k ∈ indexKeysFor pid dn e spec ↔
      ∃ attr ∈ spec.attrs, ∃ v ∈ e.valuesOf attr, k = Key.indexKey pid attr v dn := by
  simp only [indexKeysFor, List.mem_flatMap, Entry.valuesOf]
  refine exists_congr fun attr => and_congr_right fun _ => ?_
  cases e.get attr with
  | none => simp
  | some vs => simp [eq_comm]

def keysOf (pid : PartitionId) (dn : Dn) (e : Option Entry) (spec : IndexSpec) : List Str :=
  (e.map fun e => indexKeysFor pid dn e spec).getD []

@[simp] theorem keysOf_none (pid : PartitionId) (dn : Dn) (spec : IndexSpec) :
    keysOf pid dn none spec = [] := rfl

@[simp] theorem keysOf_some (pid : PartitionId) (dn : Dn) (e : Entry) (spec : IndexSpec) :
    keysOf pid dn (some e) spec = indexKeysFor pid dn e spec := rfl

theorem exists_of_mem_keysOf {pid : PartitionId} {dn : Dn} {e : Option Entry} {spec : IndexSpec}
    {k : Str} (h : k ∈ keysOf pid dn e spec) : ∃ attr v, k = Key.indexKey pid attr v dn := by
  cases e with
  | none => simp at h
  | some e =>
    obtain ⟨attr, -, v, -, hk⟩ := mem_indexKeysFor.mp h
    exact ⟨attr, v, hk⟩

theorem entryKey_not_mem_keysOf (pid : PartitionId) (dn dn' : Dn) (e : Option Entry)
    (spec : IndexSpec) : Key.entryKey pid dn' ∉ keysOf pid dn e spec := by
  intro h
  obtain ⟨attr, v, hk⟩ := exists_of_mem_keysOf h
  exact Key.entryKey_ne_indexKey _ _ _ _ _ _ hk

theorem indexKeysFor_congr {pid : PartitionId} {dn dn' : Dn} (h : dn.display = dn'.display)
    (e : Entry) (spec : IndexSpec) : indexKeysFor pid dn e spec = indexKeysFor pid dn' e spec := by
  simp only [indexKeysFor, Key.indexKey, h]

theorem createOps_eq (pid : PartitionId) (dn : Dn) (e : Entry) (spec : IndexSpec) :
    createOps pid dn e spec = putOps pid dn none e spec := rfl

theorem find?_putOps (pid : PartitionId) (dn : Dn) (old : Option Entry) (e : Entry)
    (spec : IndexSpec) (kv : OrderedMap Str Value) (k : Str) :
    (TxnOp.applyAll (putOps pid dn old e spec) kv).find? k =
      if k ∈ keysOf pid dn (some e) spec then some (.text dn.display)
      else if k = Key.entryKey pid dn then some (.entry e)
      else if k ∈ keysOf pid dn old spec then none
      else kv.find? k := by
  rw [putOps, TxnOp.applyAll_append, TxnOp.applyAll_cons, TxnOp.find?_applyAll_put, TxnOp.apply,
    OrderedMap.find?_insert, TxnOp.find?_applyAll_delete]
  by_cases hnew : k ∈ indexKeysFor pid dn e spec
  · simp [hnew]
  · simp only [keysOf]
    by_cases hold : k ∈ (old.map fun e => indexKeysFor pid dn e spec).getD []
    · simp [hnew, hold]
    · simp [hnew, hold]

theorem find?_deleteOps (pid : PartitionId) (dn : Dn) (old : Entry) (spec : IndexSpec)
    (kv : OrderedMap Str Value) (k : Str) :
    (TxnOp.applyAll (deleteOps pid dn old spec) kv).find? k =
      if k = Key.entryKey pid dn then none
      else if k ∈ keysOf pid dn (some old) spec then none
      else kv.find? k := by
  rw [deleteOps, TxnOp.applyAll_cons, TxnOp.find?_applyAll_delete, TxnOp.apply,
    OrderedMap.find?_erase, keysOf_some]
  by_cases hk : k = Key.entryKey pid dn
  · simp [hk]
  · rw [if_neg hk, if_neg hk]

end Index

abbrev View := Str → Option Value

abbrev Names := Str → Option Dn

def Cluster.view (c : Cluster) (pid : PartitionId) : View := fun k =>
  if (Key.partitionRoot pid).isPrefixOf k then c.kv.find? k else none

theorem Cluster.view_of_isPrefix {pid : PartitionId} {k : Str} (c : Cluster)
    (h : Key.partitionRoot pid <+: k) : c.view pid k = c.kv.find? k := by
  rw [view, if_pos (by simpa using h)]

@[simp] theorem Cluster.view_empty (pid : PartitionId) : Cluster.empty.view pid = fun _ => none := by
  funext k
  exact ite_self none

namespace View

open Index

def row (view : View) (names : Names) (k : Str) : Option (Dn × Entry) :=
  match names k, view k with
  | some dn, some (.entry e) => some (dn, e)
  | _, _ => none

theorem row_eq_some {view : View} {names : Names} {k : Str} {dn : Dn} {e : Entry} :
    row view names k = some (dn, e) ↔ names k = some dn ∧ view k = some (.entry e) := by
  unfold row
  split
  case h_1 dn' e' hn hv => simp [hn, hv]
  case h_2 hno =>
    constructor
    · intro h
      cases h
    · intro h
      exact absurd h.2 (hno dn e h.1)

def derived (pid : PartitionId) (spec : IndexSpec) (r : Dn × Entry) : Set Str :=
  {k | k ∈ indexKeysFor pid r.1 r.2 spec}

def indexed (pid : PartitionId) (view : View) : Set Str :=
  {k | Key.indexRoot pid <+: k ∧ ∃ v, view k = some v}

/-- What every history of writes keeps, whatever the spellings: tree keys hold
entries and have a recorded name, and an index key holds the name it ends in. -/
structure Kept (pid : PartitionId) (view : View) (names : Names) : Prop where
  named : ∀ k dn, names k = some dn → k = Key.entryKey pid dn
  present : ∀ k dn, names k = some dn → ∃ e, view k = some (.entry e)
  stored : ∀ dn v, view (Key.entryKey pid dn) = some v →
    ∃ dn' e, names (Key.entryKey pid dn) = some dn' ∧ v = .entry e
  texts : ∀ attr v dn t, view (Key.indexKey pid attr v dn) = some t → t = .text dn.display

def Exact (pid : PartitionId) (spec : IndexSpec) (view : View) (names : Names) : Prop :=
  DerivedIndex.Exact (derived pid spec) (row view names) (indexed pid view)

structure Commit (pid : PartitionId) (spec : IndexSpec) (dn : Dn) (dropped : List Str)
    (new : Option Entry) (view view' : View) : Prop where
  drops : ∀ k ∈ dropped, ∃ attr v, k = Key.indexKey pid attr v dn
  writes : ∀ k, view' k =
    if k ∈ keysOf pid dn new spec then some (.text dn.display)
    else if k = Key.entryKey pid dn then new.map .entry
    else if k ∈ dropped then none
    else view k

def rename (pid : PartitionId) (dn : Dn) (new : Option Entry) (names : Names) : Names :=
  Function.update names (Key.entryKey pid dn) (new.map fun _ => dn)

section Commit

variable {pid : PartitionId} {spec : IndexSpec} {dn : Dn} {dropped : List Str}
  {new : Option Entry} {view view' : View} {names : Names}

theorem Commit.at_self (h : Commit pid spec dn dropped new view view') :
    view' (Key.entryKey pid dn) = new.map .entry := by
  rw [h.writes, if_neg (entryKey_not_mem_keysOf _ _ _ _ _), if_pos rfl]

theorem Commit.at_entryKey (h : Commit pid spec dn dropped new view view') {dn' : Dn}
    (hne : Key.entryKey pid dn' ≠ Key.entryKey pid dn) :
    view' (Key.entryKey pid dn') = view (Key.entryKey pid dn') := by
  rw [h.writes, if_neg (entryKey_not_mem_keysOf _ _ _ _ _), if_neg hne, if_neg]
  intro hd
  obtain ⟨attr, v, hk⟩ := h.drops _ hd
  exact Key.entryKey_ne_indexKey _ _ _ _ _ _ hk

theorem Commit.row_eq (h : Commit pid spec dn dropped new view view') (hk : Kept pid view names) :
    row view' (rename pid dn new names) =
      Function.update (row view names) (Key.entryKey pid dn) (new.map fun e => (dn, e)) := by
  funext k
  by_cases hkk : k = Key.entryKey pid dn
  · subst hkk
    rw [Function.update_self, row, rename, Function.update_self, h.at_self]
    cases new with
    | none => rfl
    | some e => rfl
  · rw [Function.update_of_ne hkk, row, rename, Function.update_of_ne hkk, row]
    cases hn : names k with
    | none => rfl
    | some dn' =>
      obtain rfl := hk.named k dn' hn
      rw [h.at_entryKey hkk]

theorem rowKeys_new (pid : PartitionId) (spec : IndexSpec) (dn : Dn) (new : Option Entry) :
    DerivedIndex.rowKeys (derived pid spec) (new.map fun e => (dn, e)) =
      {k | k ∈ keysOf pid dn new spec} := by
  cases new with
  | none => simp
  | some e => simp [derived]

theorem Commit.indexed_eq (h : Commit pid spec dn dropped new view view') :
    indexed pid view' = (indexed pid view \ {k | k ∈ dropped}) ∪
      DerivedIndex.rowKeys (derived pid spec) (new.map fun e => (dn, e)) := by
  rw [rowKeys_new]
  ext k
  simp only [indexed, Set.mem_union, Set.mem_sdiff, Set.mem_ofPred_eq, h.writes]
  by_cases hnew : k ∈ keysOf pid dn new spec
  · obtain ⟨attr, v, rfl⟩ := exists_of_mem_keysOf hnew
    simp [hnew, Key.indexRoot_isPrefix_indexKey]
  · by_cases hself : k = Key.entryKey pid dn
    · subst hself
      simp [hnew, Key.not_indexRoot_isPrefix_entryKey]
    · by_cases hd : k ∈ dropped
      · simp [hnew, hself, hd]
      · simp [hnew, hself, hd]

theorem rename_eq_some {k : Str} {d : Dn} (h : rename pid dn new names k = some d) :
    (k = Key.entryKey pid dn ∧ d = dn) ∨ (k ≠ Key.entryKey pid dn ∧ names k = some d) := by
  by_cases hkk : k = Key.entryKey pid dn
  · subst hkk
    rw [rename, Function.update_self] at h
    cases new with
    | none => cases h
    | some e => exact .inl ⟨rfl, (Option.some.inj h).symm⟩
  · rw [rename, Function.update_of_ne hkk] at h
    exact .inr ⟨hkk, h⟩

theorem Commit.kept (h : Commit pid spec dn dropped new view view') (hk : Kept pid view names) :
    Kept pid view' (rename pid dn new names) where
  named := by
    intro k d hn
    cases rename_eq_some hn with
    | inl h => exact h.2 ▸ h.1
    | inr h => exact hk.named k d h.2
  present := by
    intro k d hn
    by_cases hkk : k = Key.entryKey pid dn
    · subst hkk
      cases new with
      | none => simp [rename] at hn
      | some e => exact ⟨e, h.at_self⟩
    · rw [rename, Function.update_of_ne hkk] at hn
      obtain rfl := hk.named k d hn
      rw [h.at_entryKey hkk]
      exact hk.present _ d hn
  stored := by
    intro d v hv
    by_cases hkk : Key.entryKey pid d = Key.entryKey pid dn
    · rw [hkk, h.at_self] at hv
      rw [hkk, rename, Function.update_self]
      cases new with
      | none => simp at hv
      | some e => exact ⟨dn, e, rfl, (Option.some.inj hv).symm⟩
    · rw [rename, Function.update_of_ne hkk]
      rw [h.at_entryKey hkk] at hv
      exact hk.stored d v hv
  texts := by
    intro attr v d t ht
    rw [h.writes, if_neg (Key.entryKey_ne_indexKey pid pid dn d attr v).symm] at ht
    split at ht
    case isTrue hnew =>
      obtain ⟨attr', v', hk'⟩ := exists_of_mem_keysOf hnew
      rw [(Key.indexKey_inj.mp hk').2.2.2]
      exact (Option.some.inj ht).symm
    case isFalse =>
      split at ht
      · cases ht
      · exact hk.texts attr v d t ht

theorem exists_of_mem_rowKeys {k i : Str}
    (h : i ∈ DerivedIndex.rowKeys (derived pid spec) (row view names k)) :
    ∃ dn e, names k = some dn ∧ view k = some (.entry e) ∧ i ∈ indexKeysFor pid dn e spec := by
  obtain ⟨⟨dn, e⟩, hrow, hi⟩ := h
  obtain ⟨hn, hv⟩ := row_eq_some.mp hrow
  exact ⟨dn, e, hn, hv, hi⟩

def Shared (pid : PartitionId) (spec : IndexSpec) (dn : Dn) (view : View) (names : Names)
    (k : Str) : Prop :=
  ∃ k' dn' e, k' ≠ Key.entryKey pid dn ∧ names k' = some dn' ∧ view k' = some (.entry e) ∧
    k ∈ indexKeysFor pid dn' e spec

/-- Every index key of the entry being replaced, under the name that entry was
written with, is dropped, written again or shared. -/
def Covers (pid : PartitionId) (spec : IndexSpec) (dn : Dn) (dropped : List Str)
    (new : Option Entry) (view : View) (names : Names) : Prop :=
  ∀ dn₀ old, names (Key.entryKey pid dn) = some dn₀ →
    view (Key.entryKey pid dn) = some (.entry old) → ∀ k ∈ indexKeysFor pid dn₀ old spec,
      k ∈ dropped ∨ k ∈ keysOf pid dn new spec ∨ Shared pid spec dn view names k

def Spares (pid : PartitionId) (spec : IndexSpec) (dn : Dn) (dropped : List Str)
    (new : Option Entry) (view : View) (names : Names) : Prop :=
  ∀ k, Shared pid spec dn view names k → k ∈ dropped → k ∈ keysOf pid dn new spec

theorem mem_otherKeys_iff {k : Str} :
    k ∈ DerivedIndex.otherKeys (derived pid spec) (row view names) (Key.entryKey pid dn) ↔
      Shared pid spec dn view names k := by
  constructor
  · intro ⟨k', hne, hk'⟩
    obtain ⟨dn', e, hn, hv, hi⟩ := exists_of_mem_rowKeys hk'
    exact ⟨k', dn', e, hne, hn, hv, hi⟩
  · intro ⟨k', dn', e, hne, hn, hv, hi⟩
    exact ⟨k', hne, (dn', e), row_eq_some.mpr ⟨hn, hv⟩, hi⟩

theorem covers_iff : Covers pid spec dn dropped new view names ↔
    ∀ i ∈ DerivedIndex.rowKeys (derived pid spec) (row view names (Key.entryKey pid dn)),
      i ∈ {k | k ∈ dropped} ∨
        i ∈ DerivedIndex.rowKeys (derived pid spec) (new.map fun e => (dn, e)) ∨
        i ∈ DerivedIndex.otherKeys (derived pid spec) (row view names) (Key.entryKey pid dn) := by
  simp only [rowKeys_new, mem_otherKeys_iff]
  constructor
  · intro h i hi
    obtain ⟨dn₀, old, hn, hv, hi⟩ := exists_of_mem_rowKeys hi
    exact h dn₀ old hn hv i hi
  · intro h dn₀ old hn hv k hk
    exact h k ⟨(dn₀, old), row_eq_some.mpr ⟨hn, hv⟩, hk⟩

theorem Commit.exact_iff (h : Commit pid spec dn dropped new view view')
    (hk : Kept pid view names) (he : Exact pid spec view names) :
    Exact pid spec view' (rename pid dn new names) ↔
      Covers pid spec dn dropped new view names ∧ Spares pid spec dn dropped new view names := by
  rw [Exact, h.row_eq hk, h.indexed_eq, DerivedIndex.Exact.update_iff he, covers_iff]
  simp only [mem_otherKeys_iff, rowKeys_new]
  rfl

theorem Commit.indexed_subset_iff (h : Commit pid spec dn dropped new view view')
    (hk : Kept pid view names) (he : Exact pid spec view names) :
    indexed pid view' ⊆
        DerivedIndex.tableKeys (derived pid spec) (row view' (rename pid dn new names)) ↔
      Covers pid spec dn dropped new view names := by
  rw [h.row_eq hk, h.indexed_eq, DerivedIndex.Exact.update_subset_iff he, covers_iff]

theorem Kept.not_shared (hk : Kept pid view names)
    (hnames : ∀ k dn, names k = some dn → dn.Displays) (spec : IndexSpec) (attr v : Str) {dn₀ : Dn}
    (hd : dn₀.Displays) (hkey : Key.entryKey pid dn₀ = Key.entryKey pid dn) :
    ¬ Shared pid spec dn view names (Key.indexKey pid attr v dn₀) := by
  intro ⟨k', dn', e, hne, hn, _, hi⟩
  obtain ⟨attr', -, v', -, heq⟩ := mem_indexKeysFor.mp hi
  have hdisp : dn'.display = dn₀.display := (Key.indexKey_inj.mp heq).2.2.2.symm
  rw [hk.named k' dn' hn, Key.entryKey_congr ((hnames k' dn' hn).same hd hdisp), hkey] at hne
  exact hne rfl

end Commit

theorem kept_empty (pid : PartitionId) : Kept pid (fun _ => none) (fun _ => none) where
  named := by simp
  present := by simp
  stored := by simp
  texts := by simp

theorem exact_empty (pid : PartitionId) (spec : IndexSpec) :
    Exact pid spec (fun _ => none) (fun _ => none) := by
  ext k
  simp [indexed, DerivedIndex.tableKeys, row]

theorem exists_of_mem_tableKeys {pid : PartitionId} {spec : IndexSpec} {view : View}
    {names : Names} {i : Str}
    (h : i ∈ DerivedIndex.tableKeys (derived pid spec) (row view names)) :
    ∃ k dn e, names k = some dn ∧ view k = some (.entry e) ∧ i ∈ indexKeysFor pid dn e spec := by
  obtain ⟨k, hk⟩ := h
  exact ⟨k, exists_of_mem_rowKeys hk⟩

end View

end IronDirectory.Storage
