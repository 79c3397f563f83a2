import IronDirectory.Defs.Base.Run
import IronDirectory.Defs.Storage.StoreLaws

/-! The secondary index over a single writer's history.  Tree keys fold case
and index keys do not, so the index stays exact as long as an entry with
indexed values is rewritten or deleted under the spelling it was written
with. -/

namespace IronDirectory.Storage

open Base Naming

namespace View

open Index

variable {pid : PartitionId} {spec : IndexSpec} {c : Cluster} {names : Names}

theorem mem_scan_indexPrefix (hk : Kept pid (c.view pid) names)
    (he : Exact pid spec (c.view pid) names) {attr v : Str} (hattr : attr.asciiLower ∈ spec.attrs)
    {k : Str} {val : Value} :
    (k, val) ∈ c.kv.scan (fun k => (Key.indexPrefix pid attr v).isPrefixOf k) ↔
      ∃ dn e, names (Key.entryKey pid dn) = some dn ∧
        c.kv.find? (Key.entryKey pid dn) = some (.entry e) ∧ v ∈ e.valuesOf attr ∧
          k = Key.indexKey pid attr v dn ∧ val = .text dn.display := by
  have hview : ∀ dn, c.view pid (Key.entryKey pid dn) = c.kv.find? (Key.entryKey pid dn) :=
    fun dn => c.view_of_isPrefix (Key.partitionRoot_isPrefix_entryKey.mpr rfl)
  have hidx : ∀ a v dn, c.view pid (Key.indexKey pid a v dn) =
      c.kv.find? (Key.indexKey pid a v dn) :=
    fun a v dn => c.view_of_isPrefix (Key.partitionRoot_isPrefix_indexKey.mpr rfl)
  rw [OrderedMap.mem_scan_iff]
  constructor
  · intro ⟨hfind, hpre⟩
    have hpre : Key.indexPrefix pid attr v <+: k := by simpa using hpre
    have hroot := (Key.indexRoot_isPrefix_indexPrefix pid attr v).trans hpre
    have hkroot := (Key.partitionRoot_isPrefix_indexRoot pid).trans hroot
    have hmem : k ∈ indexed pid (c.view pid) :=
      ⟨hroot, val, by rw [c.view_of_isPrefix hkroot, hfind]⟩
    rw [he] at hmem
    obtain ⟨k', dn, e, hn, hv, hkeys⟩ := exists_of_mem_tableKeys hmem
    obtain ⟨attr', -, w, hw, rfl⟩ := mem_indexKeysFor.mp hkeys
    obtain ⟨-, hlower, rfl⟩ := Key.indexPrefix_isPrefix_indexKey.mp hpre
    obtain rfl := hk.named k' dn hn
    refine ⟨dn, e, hn, (hview dn).symm.trans hv, ?_, ?_, ?_⟩
    · rwa [Entry.valuesOf, Entry.get_congr hlower]
    · exact Key.indexKey_inj.mpr ⟨rfl, hlower.symm, rfl, rfl⟩
    · exact hk.texts attr' v dn val ((hidx attr' v dn).trans hfind)
  · rintro ⟨dn, e, hn, hv, hmem, rfl, rfl⟩
    have hkeys : Key.indexKey pid attr v dn ∈ indexKeysFor pid dn e spec := by
      refine mem_indexKeysFor.mpr ⟨attr.asciiLower, hattr, v, ?_, ?_⟩
      · rwa [Entry.valuesOf, Entry.get_congr (Str.asciiLower_asciiLower attr)]
      · exact Key.indexKey_inj.mpr ⟨rfl, by simp, rfl, rfl⟩
    have htable : Key.indexKey pid attr v dn ∈
        DerivedIndex.tableKeys (derived pid spec) (row (c.view pid) names) :=
      ⟨_, (dn, e), row_eq_some.mpr ⟨hn, (hview dn).trans hv⟩, hkeys⟩
    rw [← he] at htable
    obtain ⟨-, t, ht⟩ := htable
    obtain rfl := hk.texts attr v dn t ht
    exact ⟨(hidx attr v dn).symm.trans ht,
      by simpa using Key.indexPrefix_isPrefix_indexKey.mpr ⟨rfl, rfl, rfl⟩⟩

theorem lookupByIndex_exact (hk : Kept pid (c.view pid) names)
    (hnames : ∀ k dn, names k = some dn → dn.Displays) (he : Exact pid spec (c.view pid) names)
    {attr v : Str} (hattr : attr.asciiLower ∈ spec.attrs)
    (hread : c.readFailure (Key.indexPrefix pid attr v) = none) :
    ∃ dns, lookupByIndex c pid attr v = .ok dns ∧ dns.Pairwise (fun a b => ¬ a.Same b) ∧
      ∀ d, (∃ d' ∈ dns, d'.Same d) ↔
        ∃ dn e, names (Key.entryKey pid dn) = some dn ∧
          c.kv.find? (Key.entryKey pid dn) = some (.entry e) ∧ v ∈ e.valuesOf attr ∧
            dn.Same d := by
  have hparse : ∀ dn, names (Key.entryKey pid dn) = some dn → ∃ d,
      ((Dn.parse dn.display).mapError StoreError.partition = .ok d) ∧ d.Same dn := by
    intro dn hn
    obtain ⟨d, hd, hsame⟩ := hnames _ dn hn
    exact ⟨d, by rw [hd]; rfl, hsame⟩
  have hok : ∀ kv ∈ c.kv.scan (fun k => (Key.indexPrefix pid attr v).isPrefixOf k), ∃ d,
      (do let s ← kv.2.str; (Dn.parse s).mapError StoreError.partition) = .ok d := by
    intro ⟨k, val⟩ hkv
    obtain ⟨dn, e, hn, -, -, -, rfl⟩ := (mem_scan_indexPrefix hk he hattr).mp hkv
    obtain ⟨d, hd, -⟩ := hparse dn hn
    exact ⟨d, hd⟩
  obtain ⟨dns, hdns⟩ := Outcome.exists_mapM_eq_ok hok
  refine ⟨dns, ?_, ?_, ?_⟩
  · rw [lookupByIndex, Cluster.getPrefix, hread]
    exact hdns
  · refine Outcome.pairwise_of_mapM_eq_ok hdns (OrderedMap.scan_sorted _ _) ?_
    intro ⟨k₁, v₁⟩ h₁ ⟨k₂, v₂⟩ h₂ d₁ d₂ hlt hd₁ hd₂ hsame
    obtain ⟨dn₁, e₁, hn₁, -, -, rfl, rfl⟩ := (mem_scan_indexPrefix hk he hattr).mp h₁
    obtain ⟨dn₂, e₂, hn₂, -, -, rfl, rfl⟩ := (mem_scan_indexPrefix hk he hattr).mp h₂
    obtain ⟨d₁', hp₁, hs₁⟩ := hparse dn₁ hn₁
    obtain ⟨d₂', hp₂, hs₂⟩ := hparse dn₂ hn₂
    obtain rfl : d₁' = d₁ := Except.ok.inj (hp₁.symm.trans hd₁)
    obtain rfl : d₂' = d₂ := Except.ok.inj (hp₂.symm.trans hd₂)
    rw [Key.entryKey_congr (hs₁.symm.trans (hsame.trans hs₂)), hn₂] at hn₁
    obtain rfl := Option.some.inj hn₁
    exact lt_irrefl _ hlt
  · intro d
    simp only [Outcome.mem_of_mapM_eq_ok hdns]
    constructor
    · rintro ⟨d', ⟨⟨k, val⟩, hkv, hd'⟩, hsame⟩
      obtain ⟨dn, e, hn, hv, hmem, rfl, rfl⟩ := (mem_scan_indexPrefix hk he hattr).mp hkv
      obtain ⟨d'', hp, hs⟩ := hparse dn hn
      obtain rfl : d'' = d' := Except.ok.inj (hp.symm.trans hd')
      exact ⟨dn, e, hn, hv, hmem, hs.symm.trans hsame⟩
    · rintro ⟨dn, e, hn, hv, hmem, hsame⟩
      obtain ⟨d', hp, hs⟩ := hparse dn hn
      exact ⟨d', ⟨(Key.indexKey pid attr v dn, .text dn.display),
        (mem_scan_indexPrefix hk he hattr).mpr ⟨dn, e, hn, hv, hmem, rfl, rfl⟩, hp⟩,
        hs.trans hsame⟩

end View

/-- A store together with the name each tree key was last written under. -/
structure Tracked where
  store : Store
  names : PartitionId → Names

inductive Call
  | put (dn : Dn) (entry : Entry)
  | create (dn : Dn) (entry : Entry)
  | delete (dn : Dn)

def Call.dn : Call → Dn
  | .put dn _ => dn
  | .create dn _ => dn
  | .delete dn => dn

namespace Tracked

open Index View

def cluster (t : Tracked) (p : Partition) : Cluster := t.store.clusters p.cluster

def EmptyAt (t : Tracked) (p : Partition) : Prop :=
  (t.cluster p).view p.id = (fun _ => none) ∧ t.names p.id = fun _ => none

def Stored (t : Tracked) (p : Partition) (dn : Dn) (e : Entry) : Prop :=
  t.names p.id (Key.entryKey p.id dn) = some dn ∧
    (t.cluster p).kv.find? (Key.entryKey p.id dn) = some (.entry e)

def record (t : Tracked) (s : Store) (dn : Dn) (new : Option Entry) : Tracked :=
  match t.store.registry.resolve dn with
  | none => ⟨s, t.names⟩
  | some p => ⟨s, Function.update t.names p.id (rename p.id dn new (t.names p.id))⟩

def apply (spec : IndexSpec) (t : Tracked) : Call → Except StoreError Tracked
  | .put dn e => do
    let s ← t.store.putEntry dn e spec
    return t.record s dn (some e)
  | .create dn e => do
    let (created, s) ← t.store.createEntry dn e spec
    return if created then t.record s dn (some e) else ⟨s, t.names⟩
  | .delete dn => do
    let s ← t.store.deleteEntry dn spec
    return t.record s dn none

def Step (spec : IndexSpec) (t : Tracked) (call : Call) (t' : Tracked) : Prop :=
  t.apply spec call = .ok t'

structure IndexExact (spec : IndexSpec) (p : Partition) (t : Tracked) : Prop where
  lookup : ∀ base attr v, t.store.registry.resolve base = some p →
    attr.asciiLower ∈ spec.attrs → (t.cluster p).readFailure (Key.indexPrefix p.id attr v) = none →
      ∃ dns, t.store.lookupByIndex base attr v = .ok dns ∧
        dns.Pairwise (fun a b => ¬ a.Same b) ∧
        ∀ d, (∃ d' ∈ dns, d'.Same d) ↔ ∃ dn e, t.Stored p dn e ∧ v ∈ e.valuesOf attr ∧ dn.Same d
  noOther : ∀ k val, Key.indexRoot p.id <+: k → (t.cluster p).kv.find? k = some val →
    ∃ attr ∈ spec.attrs, ∃ v dn e, t.Stored p dn e ∧ v ∈ e.valuesOf attr ∧
      k = Key.indexKey p.id attr v dn

/-- The entry the call replaces was written under the same spelling of its
name, or has no indexed values.  `create` replaces nothing. -/
def SpelledAsStored (spec : IndexSpec) (p : Partition) (t : Tracked) : Call → Prop
  | .create _ _ => True
  | .put dn _ | .delete dn => t.store.registry.resolve dn = some p →
    ∀ dn₀ old, t.names p.id (Key.entryKey p.id dn) = some dn₀ →
      (t.cluster p).kv.find? (Key.entryKey p.id dn) = some (.entry old) →
        dn₀.display = dn.display ∨ indexKeysFor p.id dn₀ old spec = []

variable {spec : IndexSpec} {p : Partition} {t t' : Tracked} {call : Call}

theorem step_cases (h : Step spec t call t') :
    ∃ q c, t.store.registry.resolve call.dn = some q ∧
      t'.store = t.store.setCluster q.cluster c ∧
      ((∃ e, call = .create call.dn e) ∧ c = t.cluster q ∧ t'.names = t.names ∨
        ∃ old new, (t.cluster q).kv.find? (Key.entryKey q.id call.dn) = old.map .entry ∧
          ((∃ e, call = .create call.dn e) → old = none) ∧
          Writes q.id spec call.dn (keysOf q.id call.dn old spec) new (t.cluster q) c ∧
          t'.names = Function.update t.names q.id
            (rename q.id call.dn new (t.names q.id))) := by
  cases call with
  | put dn e =>
    obtain ⟨s, hs, h⟩ := Outcome.bind_eq_ok.mp h
    obtain ⟨q, c, hq, rfl, hc⟩ := Store.putEntry_eq_ok hs
    obtain ⟨old, hold, hw⟩ := putEntryIndexed_eq_ok hc
    cases h
    refine ⟨q, c, hq, ?_, .inr ⟨old, some e, hold, by simp, hw, ?_⟩⟩
    · rw [record, hq]
    · rw [record, hq]
      rfl
  | create dn e =>
    obtain ⟨⟨b, s⟩, hs, h⟩ := Outcome.bind_eq_ok.mp h
    obtain ⟨q, c, hq, rfl, hc⟩ := Store.createEntry_eq_ok hs
    cases createEntryIndexed_eq_ok hc with
    | inl hb =>
      obtain ⟨rfl, rfl⟩ := hb
      cases h
      exact ⟨q, _, hq, rfl, .inl ⟨⟨e, rfl⟩, rfl, rfl⟩⟩
    | inr hb =>
      obtain ⟨rfl, habs, hw⟩ := hb
      cases h
      refine ⟨q, c, hq, ?_, .inr ⟨none, some e, habs, fun _ => rfl, hw, ?_⟩⟩
      · rw [if_pos rfl, record, hq]
      · rw [if_pos rfl, record, hq]
        rfl
  | delete dn =>
    obtain ⟨s, hs, h⟩ := Outcome.bind_eq_ok.mp h
    obtain ⟨q, c, hq, rfl, hc⟩ := Store.deleteEntry_eq_ok hs
    obtain ⟨old, hold, hw⟩ := deleteEntryIndexed_eq_ok hc
    cases h
    refine ⟨q, c, hq, ?_, .inr ⟨old, none, hold, by simp, hw, ?_⟩⟩
    · rw [record, hq]
    · rw [record, hq]
      rfl

theorem cluster_setCluster {s : Store} {names : PartitionId → Names} {ref : ClusterRef}
    {c : Cluster} (h : ref = p.cluster) :
    (Tracked.mk (s.setCluster ref c) names).cluster p = c := by
  subst h
  exact Function.update_self _ _ _

theorem cluster_setCluster_of_ne {s : Store} {names : PartitionId → Names} {ref : ClusterRef}
    {c : Cluster} (h : p.cluster ≠ ref) :
    (Tracked.mk (s.setCluster ref c) names).cluster p = s.clusters p.cluster :=
  Function.update_of_ne h _ _

theorem eq_of_id_eq {reg : PartitionRegistry} {q : Partition} (hp : p ∈ reg.iter)
    (hq : q ∈ reg.iter) (h : q.id = p.id) : q = p := by
  rw [PartitionRegistry.mem_iter_iff] at hp hq
  rw [h, hp] at hq
  exact (Option.some.inj hq).symm

theorem step_view (h : Step spec t call t') (hp : p ∈ t.store.registry.iter) :
    t'.store.registry = t.store.registry ∧
      (((t'.cluster p).view p.id = (t.cluster p).view p.id ∧ t'.names p.id = t.names p.id ∧
          SpelledAsStored spec p t call) ∨
        (t.store.registry.resolve call.dn = some p ∧
          ∃ old new, (t.cluster p).kv.find? (Key.entryKey p.id call.dn) = old.map .entry ∧
            ((∃ e, call = .create call.dn e) → old = none) ∧
            Commit p.id spec call.dn (keysOf p.id call.dn old spec) new
              ((t.cluster p).view p.id) ((t'.cluster p).view p.id) ∧
            t'.names p.id = rename p.id call.dn new (t.names p.id))) := by
  obtain ⟨q, c, hq, hstore, hcase⟩ := step_cases h
  obtain ⟨s', names'⟩ := t'
  subst hstore
  refine ⟨rfl, ?_⟩
  have hqmem := (PartitionRegistry.resolve_mem hq).1
  cases hcase with
  | inl hidle =>
    obtain ⟨⟨e, hcall⟩, rfl, hnames⟩ := hidle
    refine .inl ⟨?_, congrFun hnames p.id, ?_⟩
    · by_cases href : q.cluster = p.cluster
      · rw [cluster_setCluster href, cluster, cluster, href]
      · rw [cluster_setCluster_of_ne (Ne.symm href), cluster]
    · rw [hcall]
      trivial
  | inr hwrite =>
    obtain ⟨old, new, hold, hcreate, hw, hnames⟩ := hwrite
    obtain rfl : names' = _ := hnames
    by_cases hid : q.id = p.id
    · obtain rfl := eq_of_id_eq hp hqmem hid
      refine .inr ⟨hq, old, new, hold, hcreate, ?_, Function.update_self _ _ _⟩
      rw [cluster_setCluster rfl]
      exact hw.view
    · refine .inl ⟨?_, Function.update_of_ne (Ne.symm hid) _ _, ?_⟩
      · by_cases href : q.cluster = p.cluster
        · rw [cluster_setCluster href, hw.view_of_ne (Ne.symm hid), cluster, cluster, href]
        · rw [cluster_setCluster_of_ne (Ne.symm href), cluster]
      · have hne : t.store.registry.resolve call.dn ≠ some p := by
          intro hp'
          rw [hq] at hp'
          exact hid (congrArg Partition.id (Option.some.inj hp'))
        cases call with
        | create dn e => trivial
        | put dn e => exact fun hp' => absurd hp' hne
        | delete dn => exact fun hp' => absurd hp' hne

/-- What a history keeps as long as names are spelled as stored. -/
structure Maintained (spec : IndexSpec) (p : Partition) (t : Tracked) : Prop where
  registered : p ∈ t.store.registry.iter
  kept : Kept p.id ((t.cluster p).view p.id) (t.names p.id)
  displays : ∀ k dn, t.names p.id k = some dn → dn.Displays
  exact : Exact p.id spec ((t.cluster p).view p.id) (t.names p.id)

theorem EmptyAt.maintained (h : t.EmptyAt p) (hp : p ∈ t.store.registry.iter) :
    Maintained spec p t := by
  refine ⟨hp, ?_, ?_, ?_⟩ <;> rw [h.2]
  · rw [h.1]
    exact kept_empty p.id
  · intro k dn hn
    cases hn
  · rw [h.1]
    exact exact_empty p.id spec

theorem Maintained.indexExact (h : Maintained spec p t) : IndexExact spec p t where
  lookup := by
    intro base attr v hbase hattr hread
    rw [Store.lookupByIndex_of_resolve hbase]
    obtain ⟨dns, hdns, hpair, hmem⟩ := lookupByIndex_exact h.kept h.displays h.exact hattr hread
    refine ⟨dns, hdns, hpair, fun d => (hmem d).trans ?_⟩
    simp only [Stored, and_assoc]
  noOther := by
    intro k val hroot hfind
    have hk := (Key.partitionRoot_isPrefix_indexRoot p.id).trans hroot
    have hmem : k ∈ indexed p.id ((t.cluster p).view p.id) :=
      ⟨hroot, val, (Cluster.view_of_isPrefix _ hk).trans hfind⟩
    rw [h.exact] at hmem
    obtain ⟨k', dn, e, hn, hv, hkeys⟩ := exists_of_mem_tableKeys hmem
    obtain ⟨attr, hattr, v, hv', rfl⟩ := mem_indexKeysFor.mp hkeys
    obtain rfl := h.kept.named k' dn hn
    rw [Cluster.view_of_isPrefix _ (Key.partitionRoot_isPrefix_entryKey.mpr rfl)] at hv
    exact ⟨attr, hattr, v, dn, e, ⟨hn, hv⟩, hv', rfl⟩

theorem IndexExact.indexed_subset (h : IndexExact spec p t) :
    indexed p.id ((t.cluster p).view p.id) ⊆
      DerivedIndex.tableKeys (derived p.id spec)
        (row ((t.cluster p).view p.id) (t.names p.id)) := by
  intro k ⟨hroot, val, hval⟩
  have hk := (Key.partitionRoot_isPrefix_indexRoot p.id).trans hroot
  rw [Cluster.view_of_isPrefix _ hk] at hval
  obtain ⟨attr, hattr, v, dn, e, ⟨hn, hv⟩, hmem, rfl⟩ := h.noOther k val hroot hval
  refine ⟨_, (dn, e), row_eq_some.mpr ⟨hn, ?_⟩, mem_indexKeysFor.mpr ⟨attr, hattr, v, hmem, rfl⟩⟩
  rw [Cluster.view_of_isPrefix _ (Key.partitionRoot_isPrefix_entryKey.mpr rfl), hv]

theorem Maintained.covers_iff (h : Maintained spec p t) {dn : Dn} {old : Option Entry}
    (new : Option Entry)
    (hold : (t.cluster p).kv.find? (Key.entryKey p.id dn) = old.map .entry) :
    Covers p.id spec dn (keysOf p.id dn old spec) new ((t.cluster p).view p.id) (t.names p.id) ↔
      ∀ dn₀ e, t.names p.id (Key.entryKey p.id dn) = some dn₀ →
        (t.cluster p).kv.find? (Key.entryKey p.id dn) = some (.entry e) →
          dn₀.display = dn.display ∨ indexKeysFor p.id dn₀ e spec = [] := by
  have hview : (t.cluster p).view p.id (Key.entryKey p.id dn) =
      (t.cluster p).kv.find? (Key.entryKey p.id dn) :=
    Cluster.view_of_isPrefix _ (Key.partitionRoot_isPrefix_entryKey.mpr rfl)
  rw [Covers, hview]
  refine forall_congr' fun dn₀ => forall_congr' fun e => forall_congr' fun hn =>
    forall_congr' fun hv => ?_
  obtain rfl : old = some e := by
    rw [hold] at hv
    cases old with
    | none => cases hv
    | some o =>
      cases hv
      rfl
  constructor
  · intro hcov
    cases hkeys : indexKeysFor p.id dn₀ e spec with
    | nil => exact .inr rfl
    | cons k ks =>
      have hk : k ∈ indexKeysFor p.id dn₀ e spec := hkeys ▸ List.mem_cons_self
      obtain ⟨attr, -, v, -, rfl⟩ := mem_indexKeysFor.mp hk
      have hshared := h.kept.not_shared h.displays spec attr v
        (h.displays _ dn₀ hn) (h.kept.named _ dn₀ hn).symm
      have hdn : ∃ attr' v', Key.indexKey p.id attr v dn₀ = Key.indexKey p.id attr' v' dn :=
        (hcov _ hk).elim exists_of_mem_keysOf fun hk =>
          exists_of_mem_keysOf (hk.resolve_right hshared)
      obtain ⟨attr', v', heq⟩ := hdn
      exact .inl (Key.indexKey_inj.mp heq).2.2.2
  · intro hspell k hk
    cases hspell with
    | inl hdisp =>
      rw [indexKeysFor_congr hdisp] at hk
      exact .inl hk
    | inr hnil =>
      rw [hnil] at hk
      cases hk

theorem Maintained.spelledAsStored_iff (h : Maintained spec p t) {old : Option Entry}
    (new : Option Entry) (hres : t.store.registry.resolve call.dn = some p)
    (hold : (t.cluster p).kv.find? (Key.entryKey p.id call.dn) = old.map .entry)
    (hcreate : (∃ e, call = .create call.dn e) → old = none) :
    SpelledAsStored spec p t call ↔
      Covers p.id spec call.dn (keysOf p.id call.dn old spec) new
        ((t.cluster p).view p.id) (t.names p.id) := by
  rw [h.covers_iff new hold]
  cases call with
  | create dn e =>
    obtain rfl := hcreate ⟨e, rfl⟩
    rw [hold]
    simp [SpelledAsStored]
  | put dn e => exact forall_prop_of_true hres
  | delete dn => exact forall_prop_of_true hres

theorem Maintained.spares (h : Maintained spec p t) {dn : Dn} (hdn : dn.Displays)
    (old new : Option Entry) :
    Spares p.id spec dn (keysOf p.id dn old spec) new ((t.cluster p).view p.id)
      (t.names p.id) := by
  intro k hshared hk
  obtain ⟨attr, v, rfl⟩ := exists_of_mem_keysOf hk
  exact absurd hshared (h.kept.not_shared h.displays spec attr v hdn rfl)

theorem Maintained.step (h : Maintained spec p t) (hdn : call.dn.Displays)
    (hspell : SpelledAsStored spec p t call) (hstep : Step spec t call t') :
    Maintained spec p t' := by
  obtain ⟨hreg, hcase⟩ := step_view hstep h.registered
  cases hcase with
  | inl hframe =>
    obtain ⟨hview, hnames, -⟩ := hframe
    refine ⟨hreg ▸ h.registered, ?_, ?_, ?_⟩ <;> rw [hnames]
    · rw [hview]
      exact h.kept
    · exact h.displays
    · rw [hview]
      exact h.exact
  | inr hcommit =>
    obtain ⟨hres, old, new, hold, hcreate, hc, hnames⟩ := hcommit
    have hcov := (h.spelledAsStored_iff new hres hold hcreate).mp hspell
    refine ⟨hreg ▸ h.registered, ?_, ?_, ?_⟩ <;> rw [hnames]
    · exact hc.kept h.kept
    · intro k dn hn
      cases rename_eq_some hn with
      | inl heq => exact heq.2 ▸ hdn
      | inr hold => exact h.displays k dn hold.2
    · exact (hc.exact_iff h.kept h.exact).mpr ⟨hcov, h.spares hdn old new⟩

theorem Maintained.spelledAsStored (h : Maintained spec p t) (hstep : Step spec t call t')
    (hexact : IndexExact spec p t') : SpelledAsStored spec p t call := by
  obtain ⟨-, hcase⟩ := step_view hstep h.registered
  cases hcase with
  | inl hframe => exact hframe.2.2
  | inr hcommit =>
    obtain ⟨hres, old, new, hold, hcreate, hc, hnames⟩ := hcommit
    have hsub := hexact.indexed_subset
    rw [hnames, hc.indexed_subset_iff h.kept h.exact] at hsub
    exact (h.spelledAsStored_iff new hres hold hcreate).mpr hsub

/-- From an empty partition, the index is exact in every state of a history if
and only if every rewrite and every delete spells the name as it is stored. -/
theorem indexExact_iff_spelledAsStored (spec : IndexSpec) (p : Partition) {t₀ t : Tracked}
    {steps : List (Tracked × Call)} (hp : p ∈ t₀.store.registry.iter) (hempty : t₀.EmptyAt p)
    (hrun : Run (Step spec) t₀ steps t) (hdn : ∀ x ∈ steps, x.2.dn.Displays) :
    (∀ x ∈ Run.states steps t, IndexExact spec p x) ↔
      ∀ x ∈ steps, SpelledAsStored spec p x.1 x.2 :=
  Run.forall_iff_guard (fun _ h => h.indexExact)
    (fun _ _ _ h hV hG hstep => h.step hV hG hstep)
    (fun _ _ _ h _ hstep hQ => h.spelledAsStored hstep hQ) hrun (hempty.maintained hp) hdn

structure Rooted (p : Partition) (t : Tracked) : Prop where
  registered : p ∈ t.store.registry.iter
  named : ∀ k v, Key.treeRoot p.id <+: k → (t.cluster p).view p.id k = some v →
    ∃ dn, t.names p.id k = some dn
  resolves : ∀ k dn, t.names p.id k = some dn → t.store.registry.resolve dn = some p

theorem EmptyAt.rooted (h : t.EmptyAt p) (hp : p ∈ t.store.registry.iter) : Rooted p t := by
  refine ⟨hp, ?_, ?_⟩
  · intro k v _ hv
    rw [h.1] at hv
    cases hv
  · intro k dn hn
    rw [h.2] at hn
    cases hn

theorem Rooted.step (h : Rooted p t) (hstep : Step spec t call t') : Rooted p t' := by
  obtain ⟨hreg, hcase⟩ := step_view hstep h.registered
  cases hcase with
  | inl hframe =>
    obtain ⟨hview, hnames, -⟩ := hframe
    refine ⟨hreg ▸ h.registered, ?_, ?_⟩ <;> rw [hnames]
    · rw [hview]
      exact h.named
    · rw [hreg]
      exact h.resolves
  | inr hcommit =>
    obtain ⟨hres, old, new, -, -, hc, hnames⟩ := hcommit
    refine ⟨hreg ▸ h.registered, ?_, ?_⟩ <;> rw [hnames]
    · intro k v hroot hv
      have hindex : ∀ e, k ∉ keysOf p.id call.dn e spec := by
        intro e hk
        obtain ⟨attr, w, rfl⟩ := exists_of_mem_keysOf hk
        exact Key.not_treeRoot_isPrefix_indexKey _ _ _ _ _ hroot
      rw [hc.writes, if_neg (hindex new), if_neg (hindex old)] at hv
      by_cases hk : k = Key.entryKey p.id call.dn
      · rw [if_pos hk] at hv
        obtain ⟨e, rfl, -⟩ := Option.map_eq_some_iff.mp hv
        exact ⟨call.dn, by rw [hk, rename, Function.update_self]; rfl⟩
      · rw [if_neg hk] at hv
        rw [rename, Function.update_of_ne hk]
        exact h.named k v hroot hv
    · intro k dn hn
      rw [hreg]
      cases rename_eq_some hn with
      | inl heq => rw [heq.2, hres]
      | inr hold => exact h.resolves k dn hold.2

def rows (t : Tracked) (p : Partition) : List (Str × Value) :=
  (t.cluster p).kv.scan fun k => (Key.treeRoot p.id).isPrefixOf k

theorem mem_rows (hk : Kept p.id ((t.cluster p).view p.id) (t.names p.id)) (h : Rooted p t)
    {k : Str} {v : Value} : (k, v) ∈ t.rows p ↔
      ∃ dn e, t.Stored p dn e ∧ k = Key.entryKey p.id dn ∧ v = .entry e := by
  rw [rows, OrderedMap.mem_scan_iff, List.isPrefixOf_iff_prefix]
  constructor
  · intro ⟨hfind, hroot⟩
    have hview := Cluster.view_of_isPrefix (t.cluster p)
      ((Key.partitionRoot_isPrefix_treeRoot p.id).trans hroot)
    obtain ⟨dn, hn⟩ := h.named k v hroot (hview.trans hfind)
    obtain ⟨e, he⟩ := hk.present k dn hn
    obtain rfl := hk.named k dn hn
    rw [hview, hfind] at he
    obtain rfl := Option.some.inj he
    exact ⟨dn, e, ⟨hn, hfind⟩, rfl, rfl⟩
  · rintro ⟨dn, e, ⟨-, hfind⟩, rfl, rfl⟩
    exact ⟨hfind, List.prefix_append _ _⟩

def corp : Partition where
  id := ⟨"corp", by decide⟩
  forest := ⟨"corp", by decide⟩
  baseDn := ⟨[⟨[⟨"dc", "corp"⟩]⟩]⟩
  kind := .domain
  realm := some "CORP.EXAMPLE"
  cluster := ⟨["http://127.0.0.1:2379"], none⟩
  superior := none
  subordinates := []
  ldapUrl := none
  kdcUrl := none
  domainSid := none
  netbiosName := none

def corpEmpty : Tracked := ⟨⟨.singleton corp, fun _ => .empty⟩, fun _ _ => none⟩

def corpPerson (cn : Str) : Dn := ⟨[⟨[⟨"cn", cn⟩]⟩, ⟨[⟨"dc", "corp"⟩]⟩]⟩

def mailSpec : IndexSpec := .new ["mail"]

def withMail (v : Str) : Entry := Entry.new.set "mail" [v]

theorem indexExact_of_same_spelling :
    ∃ t₁ t₂, Step mailSpec corpEmpty (.put (corpPerson "Alice") (withMail "a@corp")) t₁ ∧
      Step mailSpec t₁ (.put (corpPerson "Alice") (withMail "b@corp")) t₂ ∧
      IndexExact mailSpec corp t₂ := by
  have hdisp : (corpPerson "Alice").Displays := ⟨_, rfl, rfl⟩
  have hempty : corpEmpty.EmptyAt corp := ⟨Cluster.view_empty corp.id, rfl⟩
  refine ⟨_, _, rfl, rfl, ?_⟩
  have hrun := Run.cons
    (show Step mailSpec corpEmpty (.put (corpPerson "Alice") (withMail "a@corp")) _ from rfl)
    (Run.cons (show Step mailSpec _ (.put (corpPerson "Alice") (withMail "b@corp")) _ from rfl)
      (.nil _))
  refine (indexExact_iff_spelledAsStored mailSpec corp (by decide) hempty hrun ?_).mpr ?_ _
    (by simp [Run.states])
  · simp only [List.forall_mem_cons]
    exact ⟨hdisp, hdisp, by simp⟩
  · simp only [List.forall_mem_cons]
    refine ⟨?_, ?_, by simp⟩
    · intro _ dn₀ old hn
      cases hn
    · intro _ dn₀ old hn _
      cases hn
      exact .inl rfl

theorem indexExact_fails_when_respelled :
    ∃ t₁ t₂, Step mailSpec corpEmpty (.put (corpPerson "Alice") (withMail "a@corp")) t₁ ∧
      Step mailSpec t₁ (.put (corpPerson "alice") (withMail "a@corp")) t₂ ∧
      (corpPerson "Alice").Displays ∧ (corpPerson "alice").Displays ∧
      (corpPerson "Alice").Same (corpPerson "alice") ∧
      t₂.store.lookupByIndex corp.baseDn "mail" "a@corp" =
        .ok [corpPerson "Alice", corpPerson "alice"] ∧
      ¬ IndexExact mailSpec corp t₂ := by
  refine ⟨_, _, rfl, rfl, ⟨_, rfl, rfl⟩, ⟨_, rfl, rfl⟩, rfl, rfl, ?_⟩
  intro h
  obtain ⟨dns, hdns, hpair, -⟩ := h.lookup corp.baseDn "mail" "a@corp" rfl (by decide) rfl
  cases hdns
  simp at hpair
  exact hpair rfl
end Tracked

end IronDirectory.Storage
