import IronDirectory.Defs.Kdc.Ctl
import IronDirectory.Defs.Kdc.PrincipalLaws
import IronDirectory.Defs.Naming.Routing
import IronDirectory.Defs.Storage.ReadAfter

namespace IronDirectory.Kdc.Ctl

open Base Crypto Kerberos Naming Storage

variable {net : ClusterRef → Cluster} {s : Settings} {p : Partition}

section Connection

theorem resolve_singleton (p : Partition) (dn : Dn) :
    (PartitionRegistry.singleton p).resolve dn =
      if dn.isWithin p.baseDn then some p else none := by
  change PartitionRegistry.maxByKey _ ([p].filter _) = _
  rw [List.filter_singleton]
  cases dn.isWithin p.baseDn with
  | false => rfl
  | true => rfl

theorem connect_of_partition (hp : partition s = .ok p) :
    connect net s = .ok (⟨.singleton p, net⟩, p.baseDn) := by
  rw [connect, hp]
  rfl

abbrev opened (net : ClusterRef → Cluster) (p : Partition) : Store := ⟨.singleton p, net⟩

theorem lookupByIndex_opened (attr value : Str) :
    (opened net p).lookupByIndex p.baseDn attr value =
      Index.lookupByIndex (net p.cluster) p.id attr value :=
  Store.lookupByIndex_of_resolve
    ((resolve_singleton p p.baseDn).trans (if_pos (Dn.isWithin_iff_suffix.mpr List.suffix_rfl))) _ _

theorem getEntry_opened_eq_ok {dn : Dn} {e : Option Entry} :
    (opened net p).getEntry dn = .ok e ↔
      dn.isWithin p.baseDn = true ∧ Index.readEntry (net p.cluster) p.id dn = .ok e := by
  rw [Store.getEntry, Store.resolve, resolve_singleton]
  by_cases hin : dn.isWithin p.baseDn = true
  · have hres : (opened net p).registry.resolve dn = some p :=
      (resolve_singleton p dn).trans (if_pos hin)
    simp only [hin, if_true, Outcome.ok_bind, Store.client_of_resolve hres, true_and]
  · rw [if_neg hin]
    refine iff_of_false ?_ fun h => hin h.1
    intro h
    cases h

end Connection

section Keys

theorem principalKeys_eq_ok {store : Store} {baseDn : Dn} {name : Str} {ks : List PrincipalKey} :
    principalKeys store baseDn name = .ok ks ↔
      ∃ dn e, store.lookupByIndex baseDn attrPrincipalName name = .ok [dn] ∧
        store.getEntry dn = .ok (some e) ∧ keys e = .ok ks ∧ ks ≠ [] := by
  constructor
  · intro h
    obtain ⟨found, hfound, h⟩ := Outcome.bind_eq_ok.mp h
    rw [Outcome.mapError_eq_ok] at hfound
    split at h
    case h_1 => cases h
    case h_2 dn =>
      obtain ⟨read, hread, hfetch⟩ := Outcome.bind_eq_ok.mp h
      obtain ⟨e, he, hparse⟩ := Outcome.bind_eq_ok.mp hfetch
      obtain ⟨ks', hks, hlast⟩ := Outcome.bind_eq_ok.mp hparse
      rw [Outcome.mapError_eq_ok] at hread hks
      rw [Outcome.require_eq_ok] at he
      subst he
      split at hlast
      · cases hlast
      · next hne =>
        cases hlast
        exact ⟨dn, e, hfound, hread, hks, by simpa using hne⟩
    case h_3 => cases h
  · rintro ⟨dn, e, hfound, hread, hks, hne⟩
    rw [principalKeys, hfound]
    simp only [Except.mapError, Outcome.ok_bind, hread, Outcome.require_some, hks]
    rw [if_neg (by simpa using hne)]
    rfl

theorem Setting.setKeys_eq_ok {cmd : Setting} {c : Cipher} {draw : Nat} {fqn : Str}
    {e e' : Entry} (h : cmd.setKeys c draw fqn e = .ok e') :
    ∃ salt values, ∀ e₀, cmd.setKeys c draw fqn e₀ =
      .ok (((e₀.set attrPrincipalName [fqn]).set attrSalt [salt]).set attrKey values) := by
  cases cmd with
  | password principal password => exact setPassword_eq_ok h
  | crossRealmKey toRealm fromRealm secret =>
    obtain ⟨values, hall⟩ := storeKeys_eq_ok h
    exact ⟨_, values, hall⟩

end Keys

namespace Setting

variable {c : Cipher} {draw : Nat → Nat} {cmd : Setting} {dn : Dn}

def Names (cmd : Setting) (s : Settings) (store : Store) (baseDn dn : Dn) : Prop :=
  let found := store.lookupByIndex baseDn attrPrincipalName (cmd.principalFqn s.realm)
  found = .ok [dn] ∨ found = .ok [] ∧ Dn.parse (cmd.dnText s.baseDnStr) = .ok dn

theorem Names.unique {store : Store} {baseDn d : Dn} (h : cmd.Names s store baseDn dn)
    (h' : cmd.Names s store baseDn d) : d = dn := by
  cases h with
  | inl h =>
    cases h' with
    | inl h' =>
      cases h.symm.trans h'
      rfl
    | inr h' => cases h.symm.trans h'.1
  | inr h =>
    cases h' with
    | inl h' => cases h.1.symm.trans h'
    | inr h' =>
      cases h.2.symm.trans h'.2
      rfl

theorem target_eq_ok {store : Store} {baseDn : Dn} {e : Entry}
    (h : cmd.target s store baseDn = .ok (dn, e)) :
    cmd.Names s store baseDn dn ∧
      ((store.lookupByIndex baseDn attrPrincipalName (cmd.principalFqn s.realm) = .ok [] ∧
        e = cmd.fresh) ∨
      (store.lookupByIndex baseDn attrPrincipalName (cmd.principalFqn s.realm) = .ok [dn] ∧
        store.getEntry dn = .ok (some e))) := by
  obtain ⟨found, hfound, h⟩ := Outcome.bind_eq_ok.mp h
  rw [Outcome.mapError_eq_ok] at hfound
  split at h
  case h_1 =>
    obtain ⟨dn', hdn, h⟩ := Outcome.bind_eq_ok.mp h
    rw [Outcome.mapError_eq_ok] at hdn
    cases h
    exact ⟨.inr ⟨hfound, hdn⟩, .inl ⟨hfound, rfl⟩⟩
  case h_2 dn' =>
    obtain ⟨read, hread, hfetch⟩ := Outcome.bind_eq_ok.mp h
    obtain ⟨e', he, hlast⟩ := Outcome.bind_eq_ok.mp hfetch
    rw [Outcome.mapError_eq_ok] at hread
    rw [Outcome.require_eq_ok] at he
    subst he
    cases hlast
    exact ⟨.inl hfound, .inr ⟨hfound, hread⟩⟩
  case h_3 => cases h

structure Ran (c : Cipher) (draw : Nat → Nat) (net : ClusterRef → Cluster) (s : Settings)
    (p : Partition) (cmd : Setting) (dn : Dn) where
  entry : Entry
  stored : Entry
  cluster : Cluster
  target : cmd.target s (opened net p) p.baseDn = .ok (dn, entry)
  keyed : cmd.setKeys c (draw 1) (cmd.principalFqn s.realm) entry = .ok stored
  within : dn.isWithin p.baseDn = true
  put : Index.putEntryIndexed (net p.cluster) p.id dn stored indexSpec = .ok cluster

def Ran.after (r : Ran c draw net s p cmd dn) : Store :=
  opened (Function.update net p.cluster r.cluster) p

theorem ran_of_run {after : Store} (hp : partition s = .ok p)
    (h : cmd.run c draw net s = .ok (after, dn)) :
    ∃ r : Ran c draw net s p cmd dn, after = r.after := by
  rw [run, connect_of_partition hp, Outcome.ok_bind] at h
  obtain ⟨-, -, h⟩ := Outcome.bind_eq_ok.mp h
  obtain ⟨⟨dn', e⟩, htarget, h⟩ := Outcome.bind_eq_ok.mp h
  obtain ⟨e', hkeyed, h⟩ := Outcome.bind_eq_ok.mp h
  obtain ⟨store, hstore, h⟩ := Outcome.bind_eq_ok.mp h
  rw [Outcome.mapError_eq_ok] at hkeyed hstore
  cases h
  obtain ⟨q, cl, hq, rfl, hput⟩ := Store.putEntry_eq_ok hstore
  rw [resolve_singleton] at hq
  split at hq
  · next hin =>
    cases hq
    exact ⟨⟨e, e', cl, htarget, hkeyed, hin, hput⟩, rfl⟩
  · cases hq

end Setting

theorem exists_run_of_main {c : Cipher} {draw : Nat → Nat} {t : UInt32} {vars : Vars}
    {args : List Str} {after : Store} {text : Str}
    (h : main c draw t net vars args = .ok (.stored after text)) :
    ∃ s cmd dn, settings vars = .ok s ∧ Setting.run c draw net s cmd = .ok (after, dn) := by
  have run : ∀ {s : Settings} {cmd : Setting}, (do
      let r ← cmd.run c draw net s
      return Done.stored r.1 (cmd.message s.realm r.2)) = .ok (.stored after text) →
      ∃ dn, cmd.run c draw net s = .ok (after, dn) := by
    intro s cmd h
    obtain ⟨⟨store, dn⟩, hrun, h⟩ := Outcome.bind_eq_ok.mp h
    cases h
    exact ⟨dn, hrun⟩
  unfold main at h
  split at h
  case h_1 cmd principal third rest =>
    obtain ⟨s, hs, h⟩ := Outcome.bind_eq_ok.mp h
    split at h
    · obtain ⟨dn, hrun⟩ := run h
      exact ⟨s, _, dn, hs, hrun⟩
    · split at h
      · obtain ⟨wrote, -, h⟩ := Outcome.bind_eq_ok.mp h
        cases h
      · split at h
        · obtain ⟨secret, -, h⟩ := Outcome.bind_eq_ok.mp h
          obtain ⟨dn, hrun⟩ := run h
          exact ⟨s, _, dn, hs, hrun⟩
        · cases h
  case h_2 => cases h

section Keeping

def keyAttrs : List Str := [attrPrincipalName, attrSalt, attrKey]

def KeepsEntries (before after : Store) : Prop :=
  ∀ ref pid dn e, (before.clusters ref).kv.find? (Key.entryKey pid dn) = some (.entry e) →
    ∃ e', (after.clusters ref).kv.find? (Key.entryKey pid dn) = some (.entry e') ∧
      ∀ attr, attr.asciiLower ∉ keyAttrs → e'.get attr = e.get attr

def KeepsPrincipals (baseDn : Dn) (principal : Str) (before after : Store) : Prop :=
  ∀ other ks, other ≠ principal → principalKeys before baseDn other = .ok ks →
    principalKeys after baseDn other = .ok ks

namespace Setting

variable {c : Cipher} {draw : Nat → Nat} {cmd : Setting} {dn : Dn}

/-- Where the principal is new, the name made up for it is free, or holds an
entry with the same attributes but for keys. -/
def Vacant (net : ClusterRef → Cluster) (s : Settings) (p : Partition) (cmd : Setting) : Prop :=
  (opened net p).lookupByIndex p.baseDn attrPrincipalName (cmd.principalFqn s.realm) = .ok [] →
    ∀ dn old, Dn.parse (cmd.dnText s.baseDnStr) = .ok dn →
      (opened net p).getEntry dn = .ok (some old) →
        ∀ attr, attr.asciiLower ∉ keyAttrs → cmd.fresh.get attr = old.get attr

def Derives (c : Cipher) (draw : Nat → Nat) (s : Settings) (cmd : Setting)
    (ks : List PrincipalKey) : Prop :=
  ∃ e, cmd.setKeys c (draw 1) (cmd.principalFqn s.realm) Entry.new = .ok e ∧ keys e = .ok ks

/-- No other principal with keys has its index row, or its entry, under the
name the command writes under. -/
def Unshared (c : Cipher) (draw : Nat → Nat) (net : ClusterRef → Cluster) (s : Settings)
    (p : Partition) (cmd : Setting) : Prop :=
  ∀ dn old, cmd.Names s (opened net p) p.baseDn dn → (opened net p).getEntry dn = .ok (some old) →
    ∀ other d ks, other ≠ cmd.principalFqn s.realm →
      (opened net p).lookupByIndex p.baseDn attrPrincipalName other = .ok [d] →
      principalKeys (opened net p) p.baseDn other = .ok ks →
        (other ∈ old.valuesOf attrPrincipalName →
          (net p.cluster).kv.find? (Key.indexKey p.id attrPrincipalName other dn) = none) ∧
        (Key.entryKey p.id d = Key.entryKey p.id dn → Derives c draw s cmd ks)

namespace Ran

variable (r : Ran c draw net s p cmd dn)

theorem names (r : Ran c draw net s p cmd dn) : cmd.Names s (opened net p) p.baseDn dn :=
  (target_eq_ok r.target).1

theorem writes : ∃ old, (opened net p).getEntry dn = .ok old ∧
    Index.Writes p.id indexSpec dn (Index.keysOf p.id dn old indexSpec) (some r.stored)
      (net p.cluster) r.cluster := by
  obtain ⟨old, hread, htxn⟩ := Outcome.bind_eq_ok.mp r.put
  exact ⟨old, getEntry_opened_eq_ok.mpr ⟨r.within, hread⟩,
    Index.writes_putOps old r.stored (Cluster.txn_eq_ok htxn)⟩

theorem get_stored {attr : Str} (h : attr.asciiLower ∉ keyAttrs) :
    r.stored.get attr = r.entry.get attr := by
  obtain ⟨salt, values, hall⟩ := setKeys_eq_ok r.keyed
  have hstored : _ = r.stored := Except.ok.inj ((hall r.entry).symm.trans r.keyed)
  have hne : ∀ a ∈ keyAttrs, attr.asciiLower ≠ a.asciiLower := by
    intro a ha heq
    have hlower : ∀ a ∈ keyAttrs, a.asciiLower = a := by decide
    exact h (heq.trans (hlower a ha) ▸ ha)
  rw [← hstored, Entry.get_set, if_neg (hne attrKey (by decide)), Entry.get_set,
    if_neg (hne attrSalt (by decide)), Entry.get_set, if_neg (hne attrPrincipalName (by decide))]

theorem valuesOf_stored : r.stored.valuesOf attrPrincipalName = [cmd.principalFqn s.realm] := by
  obtain ⟨salt, values, hall⟩ := setKeys_eq_ok r.keyed
  have hstored : _ = r.stored := Except.ok.inj ((hall r.entry).symm.trans r.keyed)
  rw [← hstored, Entry.valuesOf_set, if_neg (by decide), Entry.valuesOf_set, if_neg (by decide),
    Entry.valuesOf_set, if_pos rfl]

theorem derives_iff {ks : List PrincipalKey} :
    Derives c draw s cmd ks ↔ keys r.stored = .ok ks := by
  obtain ⟨salt, values, hall⟩ := setKeys_eq_ok r.keyed
  have hkeys : ∀ e₀ : Entry, keys (((e₀.set attrPrincipalName [cmd.principalFqn s.realm]).set
      attrSalt [salt]).set attrKey values) = values.mapM parseKey := by
    intro e₀
    rw [keys, Entry.get_set, if_pos rfl]
    rfl
  have hstored : _ = r.stored := Except.ok.inj ((hall r.entry).symm.trans r.keyed)
  rw [Derives, hall, ← hstored, hkeys]
  constructor
  · rintro ⟨e, he, hks⟩
    cases he
    rw [← hks, hkeys]
  · intro hks
    exact ⟨_, rfl, (hkeys _).trans hks⟩

theorem find?_entryKey (ref : ClusterRef) (q : PartitionId) (d : Dn) :
    (r.after.clusters ref).kv.find? (Key.entryKey q d) =
      if ref = p.cluster ∧ Key.entryKey q d = Key.entryKey p.id dn then some (.entry r.stored)
      else (net ref).kv.find? (Key.entryKey q d) := by
  obtain ⟨old, -, hw⟩ := r.writes
  have hindex : ∀ attr v, Key.entryKey q d ≠ Key.indexKey p.id attr v dn :=
    fun attr v => Key.entryKey_ne_indexKey _ _ _ _ _ _
  change (Function.update net p.cluster r.cluster ref).kv.find? _ = _
  by_cases href : ref = p.cluster
  · subst href
    rw [Function.update_self, hw.writes, if_neg, Option.map_some]
    · by_cases hkey : Key.entryKey q d = Key.entryKey p.id dn
      · rw [if_pos hkey, if_pos ⟨rfl, hkey⟩]
      · have hdrop : Key.entryKey q d ∉ Index.keysOf p.id dn old indexSpec := by
          intro hd
          obtain ⟨attr, v, hk⟩ := hw.drops _ hd
          exact hindex attr v hk
        rw [if_neg hkey, if_neg hdrop, if_neg (fun h => hkey h.2)]
    · intro hmem
      obtain ⟨attr, v, hk⟩ := Index.exists_of_mem_keysOf hmem
      exact hindex attr v hk
  · rw [Function.update_of_ne href, if_neg (fun h => href h.1)]

theorem keepsEntries_iff : KeepsEntries (opened net p) r.after ↔ Vacant net s p cmd := by
  obtain ⟨hnames, hcases⟩ := target_eq_ok r.target
  constructor
  · intro hkeeps hnone d old hd hold attr hattr
    obtain rfl := hnames.unique (.inr ⟨hnone, hd⟩)
    cases hcases with
    | inl hfresh =>
      have hfind := Index.readEntry_eq_ok (getEntry_opened_eq_ok.mp hold).2
      obtain ⟨e', he', hsame⟩ := hkeeps p.cluster p.id d old hfind
      rw [r.find?_entryKey, if_pos ⟨rfl, rfl⟩] at he'
      cases he'
      rw [← hsame attr hattr, r.get_stored hattr, hfresh.2]
    | inr hfound => cases hnone.symm.trans hfound.1
  · intro hvacant ref q d e he
    rw [r.find?_entryKey]
    by_cases hat : ref = p.cluster ∧ Key.entryKey q d = Key.entryKey p.id dn
    · obtain ⟨rfl, hkey⟩ := hat
      rw [if_pos ⟨rfl, hkey⟩]
      refine ⟨r.stored, rfl, fun attr hattr => ?_⟩
      rw [r.get_stored hattr]
      obtain ⟨old, hold, -⟩ := r.writes
      have hfind := Index.readEntry_eq_ok (getEntry_opened_eq_ok.mp hold).2
      rw [hkey] at he
      obtain rfl : old = some e := by
        have heq := hfind.symm.trans he
        cases old with
        | none => cases heq
        | some old =>
          cases heq
          rfl
      cases hcases with
      | inl hfresh =>
        rw [hfresh.2]
        cases hnames with
        | inl hone => cases hfresh.1.symm.trans hone
        | inr hnone => exact hvacant hnone.1 dn e hnone.2 hold attr hattr
      | inr hfound =>
        cases hold.symm.trans hfound.2
        rfl
    · rw [if_neg hat]
      exact ⟨e, he, fun _ _ => rfl⟩

theorem lookupByIndex_after {other : Str} {d : Dn} {old : Option Entry}
    (hold : (opened net p).getEntry dn = .ok old) (hne : other ≠ cmd.principalFqn s.realm)
    (h : (opened net p).lookupByIndex p.baseDn attrPrincipalName other = .ok [d]) :
    r.after.lookupByIndex p.baseDn attrPrincipalName other =
      .ok (if Key.indexKey p.id attrPrincipalName other dn ∈ Index.keysOf p.id dn old indexSpec ∧
        ((net p.cluster).kv.find? (Key.indexKey p.id attrPrincipalName other dn)).isSome
        then [] else [d]) := by
  obtain ⟨old', hold', hw⟩ := r.writes
  cases hold.symm.trans hold'
  rw [lookupByIndex_opened] at h
  have hnew : ∀ e, some r.stored = some e → other ∉ e.valuesOf attrPrincipalName := by
    intro e he
    cases he
    rw [r.valuesOf_stored, List.mem_singleton]
    exact hne
  rw [after, lookupByIndex_opened, Function.update_self]
  exact hw.lookupByIndex (Index.putEntryIndexed_failures r.put).1 hnew h

theorem getEntry_after {d : Dn} {e : Entry} (h : (opened net p).getEntry d = .ok (some e)) :
    r.after.getEntry d =
      .ok (some (if Key.entryKey p.id d = Key.entryKey p.id dn then r.stored else e)) := by
  obtain ⟨old, -, hw⟩ := r.writes
  obtain ⟨hin, hread⟩ := getEntry_opened_eq_ok.mp h
  rw [after, getEntry_opened_eq_ok, Function.update_self]
  exact ⟨hin, hw.readEntry (Index.putEntryIndexed_failures r.put).1 hread⟩

theorem mem_keysOf_iff {old : Entry} {other : Str} :
    Key.indexKey p.id attrPrincipalName other dn ∈ Index.keysOf p.id dn (some old) indexSpec ↔
      other ∈ old.valuesOf attrPrincipalName := by
  rw [Index.keysOf_some, Index.mem_indexKeysFor]
  constructor
  · rintro ⟨attr, -, v, hv, hkey⟩
    obtain ⟨-, hattr, rfl, -⟩ := Key.indexKey_inj.mp hkey
    rw [Entry.valuesOf_congr hattr]
    exact hv
  · intro hv
    exact ⟨attrPrincipalName, by decide, other, hv, rfl⟩

theorem principalKeys_after {other : Str} {d : Dn} {old e : Entry} {ks : List PrincipalKey}
    (hold : (opened net p).getEntry dn = .ok (some old)) (hne : other ≠ cmd.principalFqn s.realm)
    (hd : (opened net p).lookupByIndex p.baseDn attrPrincipalName other = .ok [d])
    (he : (opened net p).getEntry d = .ok (some e)) (hks : keys e = .ok ks) (hnil : ks ≠ []) :
    principalKeys r.after p.baseDn other = .ok ks ↔
      (other ∈ old.valuesOf attrPrincipalName →
        (net p.cluster).kv.find? (Key.indexKey p.id attrPrincipalName other dn) = none) ∧
      (Key.entryKey p.id d = Key.entryKey p.id dn → Derives c draw s cmd ks) := by
  have hlookup := r.lookupByIndex_after hold hne hd
  simp only [mem_keysOf_iff, Option.isSome_iff_ne_none] at hlookup
  rw [principalKeys_eq_ok, hlookup, r.derives_iff]
  constructor
  · rintro ⟨d', e', hd', he', hks', -⟩
    split at hd'
    · cases hd'
    · next hkept =>
      cases hd'
      rw [r.getEntry_after he] at he'
      cases he'
      refine ⟨fun hv => not_not.mp (not_and.mp hkept hv), fun hkey => ?_⟩
      rw [← hks', if_pos hkey]
  · rintro ⟨hrow, hkey⟩
    rw [if_neg (fun h => h.2 (hrow h.1))]
    refine ⟨d, _, rfl, r.getEntry_after he, ?_, hnil⟩
    split
    · next heq => exact hkey heq
    · exact hks

theorem principalKeys_after_of_none {other : Str} {ks : List PrincipalKey}
    (hold : (opened net p).getEntry dn = .ok none) (hne : other ≠ cmd.principalFqn s.realm)
    (h : principalKeys (opened net p) p.baseDn other = .ok ks) :
    principalKeys r.after p.baseDn other = .ok ks := by
  obtain ⟨d, e, hd, he, hks, hnil⟩ := principalKeys_eq_ok.mp h
  have hkey : Key.entryKey p.id d ≠ Key.entryKey p.id dn := by
    intro hkey
    have hnone := Index.readEntry_eq_ok (getEntry_opened_eq_ok.mp hold).2
    have hsome := Index.readEntry_eq_ok (getEntry_opened_eq_ok.mp he).2
    rw [hkey, hnone] at hsome
    cases hsome
  have hlookup := r.lookupByIndex_after hold hne hd
  have hentry := r.getEntry_after he
  rw [if_neg hkey] at hentry
  exact principalKeys_eq_ok.mpr ⟨d, e, by simpa using hlookup, hentry, hks, hnil⟩

theorem keepsPrincipals_iff :
    KeepsPrincipals p.baseDn (cmd.principalFqn s.realm) (opened net p) r.after ↔
      Unshared c draw net s p cmd := by
  constructor
  · intro hkeeps dn' old hnames hold other d ks hne hd hks
    obtain rfl := r.names.unique hnames
    obtain ⟨d', e, hd', he, hkeys, hnil⟩ := principalKeys_eq_ok.mp hks
    cases hd.symm.trans hd'
    exact (r.principalKeys_after hold hne hd he hkeys hnil).mp (hkeeps other ks hne hks)
  · intro hunshared other ks hne hks
    obtain ⟨old, hold, -⟩ := r.writes
    cases old with
    | none => exact r.principalKeys_after_of_none hold hne hks
    | some old =>
      obtain ⟨d, e, hd, he, hkeys, hnil⟩ := principalKeys_eq_ok.mp hks
      exact (r.principalKeys_after hold hne hd he hkeys hnil).mpr
        (hunshared dn old r.names hold other d ks hne hd hks)

end Ran

/-- A command that sets keys leaves everything but the keys of its principal as
it was exactly if the name it writes under is the principal's own. -/
theorem sets_only_keys_iff {after : Store} (hp : partition s = .ok p)
    (h : cmd.run c draw net s = .ok (after, dn)) :
    KeepsEntries (opened net p) after ∧
        KeepsPrincipals p.baseDn (cmd.principalFqn s.realm) (opened net p) after ↔
      Vacant net s p cmd ∧ Unshared c draw net s p cmd := by
  obtain ⟨r, rfl⟩ := ran_of_run hp h
  rw [r.keepsEntries_iff, r.keepsPrincipals_iff]

/-- Every index row that leads to the entry under this name is one of its own. -/
def OwnRows (c : Cluster) (pid : PartitionId) (dn : Dn) (old : Entry) : Prop :=
  ∀ row ∈ c.kv.entries, ∀ d ∈ row.2.str.toOption.bind fun s => (Dn.parse s).toOption,
    Key.entryKey pid d = Key.entryKey pid dn → row.1 ∈ Index.indexKeysFor pid dn old indexSpec

instance (c : Cluster) (pid : PartitionId) (dn : Dn) (old : Entry) :
    Decidable (OwnRows c pid dn old) :=
  inferInstanceAs (Decidable (∀ row ∈ c.kv.entries, ∀ d ∈ _, _ → _))

theorem unshared_of_ownRows {old : Entry}
    (hfound : (opened net p).lookupByIndex p.baseDn attrPrincipalName (cmd.principalFqn s.realm) =
      .ok [dn])
    (hold : (opened net p).getEntry dn = .ok (some old))
    (hvalues : old.valuesOf attrPrincipalName = [cmd.principalFqn s.realm])
    (hrows : OwnRows (net p.cluster) p.id dn old) : Unshared c draw net s p cmd := by
  intro dn' old' hnames hold' other d ks hne hd _
  obtain rfl := Names.unique (.inl hfound) hnames
  cases hold.symm.trans hold'
  rw [hvalues, List.mem_singleton]
  refine ⟨fun h => absurd h hne, fun hkey => absurd ?_ hne⟩
  rw [lookupByIndex_opened] at hd
  obtain ⟨rows, hrow, hmap⟩ := Outcome.bind_eq_ok.mp hd
  obtain ⟨row, hmem, hparse⟩ := (Outcome.mem_of_mapM_eq_ok hmap d).mp (List.mem_singleton_self d)
  obtain ⟨text, htext, hparse⟩ := Outcome.bind_eq_ok.mp hparse
  rw [Outcome.mapError_eq_ok] at hparse
  unfold Cluster.getPrefix at hrow
  split at hrow
  · cases hrow
  cases hrow
  have hfind := OrderedMap.mem_scan_iff.mp hmem
  have hown := hrows row (OrderedMap.mem_entries_iff.mpr hfind.1) d
    (by rw [htext]; exact Outcome.toOption_eq_some.mpr hparse) hkey
  obtain ⟨attr, -, v, hv, hindex⟩ := Index.mem_indexKeysFor.mp hown
  rw [hindex, List.isPrefixOf_iff_prefix] at hfind
  obtain ⟨-, hattr, rfl⟩ := Key.indexPrefix_isPrefix_indexKey.mp hfind.2
  rw [← Entry.valuesOf_congr hattr, hvalues] at hv
  exact List.mem_singleton.mp hv

section Example

def exampleSettings : Settings where
  endpoint := "http://etcd:2379"
  pid := "example"
  baseDnStr := "dc=example,dc=test"
  realm := "EXAMPLE.TEST"

def emptyNet : ClusterRef → Cluster := fun _ => .empty

def slashed : Setting := .password "svc/web" "first secret"

def dotted : Setting := .password "svc.web" "second secret"

def alice : Setting := .password "alice" "a user's secret"

def renewed : Setting := .password "svc/web" "third secret"

def examplePartition : Partition := (partition exampleSettings).toOption.get (by decide)

/-- What is stored once each of the commands has run. -/
def afterRuns (cmds : List Setting) : ClusterRef → Cluster :=
  cmds.foldl (fun net cmd =>
    (cmd.run .ideal id net exampleSettings).toOption.elim net fun r => r.1.clusters) emptyNet

def populated : ClusterRef → Cluster := afterRuns [slashed, alice]

theorem partition_example : partition exampleSettings = .ok examplePartition :=
  Outcome.toOption_eq_some.mp (Option.some_get _).symm

theorem sets_only_keys_renewed : ∃ p after dn ks,
    partition exampleSettings = .ok p ∧
    renewed.run .ideal id populated exampleSettings = .ok (after, dn) ∧
    principalKeys (opened populated p) p.baseDn (alice.principalFqn exampleSettings.realm) =
      .ok ks ∧
    KeepsEntries (opened populated p) after ∧
    KeepsPrincipals p.baseDn (renewed.principalFqn exampleSettings.realm) (opened populated p)
      after := by
  obtain ⟨hok, halice, hown⟩ :
      (renewed.run .ideal id populated exampleSettings).toOption.isSome = true ∧
      (principalKeys (opened populated examplePartition) examplePartition.baseDn
        (alice.principalFqn exampleSettings.realm)).toOption.isSome = true ∧
      ((renewed.target exampleSettings (opened populated examplePartition)
        examplePartition.baseDn).toOption.any fun x => decide
          (x.2.valuesOf attrPrincipalName = [renewed.principalFqn exampleSettings.realm] ∧
            OwnRows (populated examplePartition.cluster) examplePartition.id x.1 x.2)) = true := by
    decide +kernel
  obtain ⟨⟨after, dn⟩, hrun⟩ := Option.isSome_iff_exists.mp hok
  obtain ⟨ks, hks⟩ := Option.isSome_iff_exists.mp halice
  obtain ⟨⟨dn', old⟩, htarget, hown⟩ := (Option.any_eq_true _ _).mp hown
  rw [Outcome.toOption_eq_some] at hrun hks htarget
  obtain ⟨hvalues, hrows⟩ : old.valuesOf attrPrincipalName = _ ∧ OwnRows _ _ dn' old :=
    of_decide_eq_true hown
  refine ⟨examplePartition, after, dn, ks, partition_example, hrun, hks,
    (sets_only_keys_iff partition_example hrun).mpr ?_⟩
  cases (target_eq_ok htarget).2 with
  | inl hnew =>
    rw [hnew.2] at hvalues
    exact absurd hvalues (by decide)
  | inr hfound =>
    refine ⟨fun hnone => ?_, unshared_of_ownRows hfound.1 hfound.2 hvalues hrows⟩
    cases hfound.1.symm.trans hnone

def clobbered : Option (Bool × Bool) := do
  let p ← (partition exampleSettings).toOption
  let first ← (slashed.run .ideal id emptyNet exampleSettings).toOption
  let second ← (dotted.run .ideal id first.1.clusters exampleSettings).toOption
  let resolves := fun store =>
    (principalKeys store p.baseDn (slashed.principalFqn exampleSettings.realm)).toOption.isSome
  return (resolves (opened first.1.clusters p), resolves second.1)

theorem keys_of_slashed_lost : ∃ p first second, partition exampleSettings = .ok p ∧
    slashed.run .ideal id emptyNet exampleSettings = .ok first ∧
    dotted.run .ideal id first.1.clusters exampleSettings = .ok second ∧
    ¬ KeepsPrincipals p.baseDn (dotted.principalFqn exampleSettings.realm)
      (opened first.1.clusters p) second.1 := by
  have hrun : clobbered = some (true, false) := by decide +kernel
  simp only [clobbered, Option.bind_eq_bind, Option.bind_eq_some_iff,
    Outcome.toOption_eq_some] at hrun
  obtain ⟨p, hp, first, hfirst, second, hsecond, hrun⟩ := hrun
  refine ⟨p, first, second, hp, hfirst, hsecond, fun hkeeps => ?_⟩
  obtain ⟨hbefore, hafter⟩ := Prod.mk.inj (Option.some.inj hrun)
  obtain ⟨ks, hks⟩ := Option.isSome_iff_exists.mp hbefore
  rw [Outcome.toOption_eq_some] at hks
  rw [hkeeps _ ks (by decide) hks] at hafter
  cases hafter

end Example

end Setting

end Keeping

end IronDirectory.Kdc.Ctl
