import Mathlib.Data.List.Nodup
import IronDirectory.Defs.Base.Lists
import IronDirectory.Defs.Kdc.App
import IronDirectory.Defs.Storage.IndexHistory
import IronDirectory.Defs.Storage.Trace

/-! The group RIDs of a PAC against the groups the directory stores.  The
index compares `member` values as text, while names are compared folded. -/

namespace IronDirectory.Kdc.Pac

open Base Naming Storage

def HasMember (clientDn : Dn) (e : Entry) : Prop :=
  ∃ v ∈ e.valuesOf "member", ∃ d, Dn.parse v = .ok d ∧ d.Same clientDn

instance decidableHasMember (clientDn : Dn) (e : Entry) : Decidable (HasMember clientDn e) :=
  decidable_of_iff (∃ v ∈ e.valuesOf "member", (match Dn.parse v with
      | .ok d => decide (d.Same clientDn)
      | .error _ => false) = true) <| by
    refine exists_congr fun v => and_congr_right fun _ => ?_
    cases Dn.parse v with
    | error err => simp
    | ok d => simp

def entryWhere (P : Entry → Prop) [DecidablePred P] : Value → Option Entry
  | .entry e => if P e then some e else none
  | .text _ => none

def rid (e : Entry) : Option UInt32 := e.objectSid.bind Sid.rid

def keysWhere (t : Tracked) (p : Partition) (P : Entry → Prop) [DecidablePred P] : List Str :=
  ((t.rows p).filter fun kv => (entryWhere P kv.2).isSome).map Prod.fst

def ridsWhere (t : Tracked) (p : Partition) (P : Entry → Prop) [DecidablePred P] : List UInt32 :=
  (t.rows p).filterMap fun kv => (entryWhere P kv.2).bind rid

variable {t : Tracked} {p : Partition} {baseDn clientDn : Dn} {P : Entry → Prop} [DecidablePred P]

theorem entryWhere_eq_some {v : Value} {e : Entry} :
    entryWhere P v = some e ↔ v = .entry e ∧ P e := by
  cases v with
  | text s => simp [entryWhere]
  | entry e' =>
    simp only [entryWhere, Option.ite_none_right_eq_some, Option.some.injEq, Value.entry.injEq]
    constructor
    · rintro ⟨h, rfl⟩
      exact ⟨rfl, h⟩
    · rintro ⟨rfl, h⟩
      exact ⟨h, rfl⟩

theorem entryWhere_bind_rid (P : Entry → Prop) [DecidablePred P] (e : Entry) :
    (entryWhere P (.entry e)).bind rid = if P e then rid e else none := by
  by_cases h : P e <;> simp [entryWhere, h]

theorem ite_none_eq_iff {a b : Prop} [Decidable a] [Decidable b] {r : Option UInt32} :
    ((if a then r else none) = if b then r else none) ↔ (r.isSome → (a ↔ b)) := by
  cases r with
  | none => simp
  | some n => by_cases ha : a <;> by_cases hb : b <;> simp [ha, hb]

def ridAt (t : Tracked) (p : Partition) (k : Str) : Option UInt32 :=
  match (t.cluster p).kv.find? k with
  | some (.entry e) => rid e
  | _ => none

theorem ridsWhere_eq (P : Entry → Prop) [DecidablePred P] :
    ridsWhere t p P = (keysWhere t p P).filterMap (ridAt t p) := by
  rw [keysWhere, List.filterMap_map, List.filterMap_filter, ridsWhere]
  refine List.filterMap_congr fun kv hkv => ?_
  obtain ⟨hfind, -⟩ := OrderedMap.mem_scan_iff.mp hkv
  cases h : entryWhere P kv.2 with
  | none => simp
  | some e =>
    have hv := (entryWhere_eq_some.mp h).1
    simp [ridAt, hfind, hv]

theorem mem_keysWhere (hk : View.Kept p.id ((t.cluster p).view p.id) (t.names p.id))
    (hr : t.Rooted p) {k : Str} :
    k ∈ keysWhere t p P ↔ ∃ dn e, t.Stored p dn e ∧ P e ∧ k = Key.entryKey p.id dn := by
  simp only [keysWhere, List.mem_map, List.mem_filter, Option.isSome_iff_exists,
    entryWhere_eq_some]
  constructor
  · rintro ⟨⟨_, v⟩, ⟨hmem, e, rfl, he⟩, rfl⟩
    obtain ⟨dn, e', hs, hkey, hv⟩ := (Tracked.mem_rows hk hr).mp hmem
    cases hv
    exact ⟨dn, e, hs, he, hkey⟩
  · rintro ⟨dn, e, hs, he, rfl⟩
    exact ⟨(_, .entry e), ⟨(Tracked.mem_rows hk hr).mpr ⟨dn, e, hs, rfl, rfl⟩, e, rfl, he⟩, rfl⟩

theorem nodup_keysWhere (t : Tracked) (p : Partition) (P : Entry → Prop) [DecidablePred P] :
    (keysWhere t p P).Nodup := by
  refine List.pairwise_map.mpr (List.Pairwise.imp ?_ ((OrderedMap.scan_sorted _ _).filter _))
  intro x y hlt
  exact ne_of_lt hlt

theorem lookup_member (h : t.Maintained indexSpec p) (hr : t.Rooted p)
    (hbase : t.store.registry.resolve baseDn = some p)
    (hread : ∀ k, (t.cluster p).readFailure k = none) (v : Str) :
    ∃ dns, t.store.lookupByIndex baseDn "member" v = .ok dns ∧
      (dns.map (Key.entryKey p.id)).Perm (keysWhere t p fun e => v ∈ e.valuesOf "member") ∧
      ∀ d ∈ dns, t.store.registry.resolve d = some p := by
  obtain ⟨dns, hdns, hpair, hmem⟩ := h.indexExact.lookup baseDn "member" v hbase (by decide) (hread _)
  have hstored : ∀ d ∈ dns, ∃ dn e, t.Stored p dn e ∧ v ∈ e.valuesOf "member" ∧ dn.Same d :=
    fun d hd => (hmem d).mp ⟨d, hd, .refl d⟩
  refine ⟨dns, hdns, (List.perm_ext_iff_of_nodup ?_ (nodup_keysWhere ..)).mpr fun k => ?_, ?_⟩
  · refine List.pairwise_map.mpr (hpair.imp_of_mem fun {d d'} hd hd' hne heq => hne ?_)
    obtain ⟨dn, e, ⟨hn, -⟩, -, hs⟩ := hstored d hd
    obtain ⟨dn', e', ⟨hn', -⟩, -, hs'⟩ := hstored d' hd'
    rw [Key.entryKey_congr hs, heq, ← Key.entryKey_congr hs', hn'] at hn
    obtain rfl := Option.some.inj hn
    exact hs.symm.trans hs'
  · rw [mem_keysWhere h.kept hr, List.mem_map]
    constructor
    · rintro ⟨d, hd, rfl⟩
      obtain ⟨dn, e, hs, hv, hsame⟩ := hstored d hd
      exact ⟨dn, e, hs, hv, (Key.entryKey_congr hsame).symm⟩
    · rintro ⟨dn, e, hs, hv, rfl⟩
      obtain ⟨d, hd, hsame⟩ := (hmem dn).mpr ⟨dn, e, hs, hv, .refl dn⟩
      exact ⟨d, hd, Key.entryKey_congr hsame⟩
  · intro d hd
    obtain ⟨dn, e, hs, -, hsame⟩ := hstored d hd
    rw [← Store.resolve_congr _ hsame]
    exact hr.resolves _ dn hs.1

theorem getEntry_of_resolve (hk : View.Kept p.id ((t.cluster p).view p.id) (t.names p.id))
    (hread : ∀ k, (t.cluster p).readFailure k = none) {d : Dn}
    (hd : t.store.registry.resolve d = some p) :
    ∃ e : Option Entry, t.store.getEntry d = .ok e ∧
      (t.cluster p).kv.find? (Key.entryKey p.id d) = e.map .entry := by
  have hview : (t.cluster p).view p.id (Key.entryKey p.id d) =
      (t.cluster p).kv.find? (Key.entryKey p.id d) :=
    Cluster.view_of_isPrefix _ (Key.partitionRoot_isPrefix_entryKey.mpr rfl)
  obtain ⟨e, he⟩ : ∃ e : Option Entry,
      (t.cluster p).kv.find? (Key.entryKey p.id d) = e.map .entry := by
    cases hfind : (t.cluster p).kv.find? (Key.entryKey p.id d) with
    | none => exact ⟨none, rfl⟩
    | some v =>
      obtain ⟨-, e, -, rfl⟩ := hk.stored d v (hview.trans hfind)
      exact ⟨some e, rfl⟩
  exact ⟨e, Store.getEntry_of_find? hd (hread _) he, he⟩

theorem groupRids_perm (h : t.Maintained indexSpec p) (hr : t.Rooted p)
    (hbase : t.store.registry.resolve baseDn = some p)
    (hread : ∀ k, (t.cluster p).readFailure k = none) :
    (groupRids t.store baseDn clientDn).Perm
      (ridsWhere t p fun e => clientDn.display ∈ e.valuesOf "member") := by
  obtain ⟨dns, hdns, hperm, hres⟩ := lookup_member h hr hbase hread clientDn.display
  rw [ridsWhere_eq]
  refine .trans (.of_eq ?_) (hperm.filterMap (ridAt t p))
  rw [groupRids, hdns, List.filterMap_map]
  refine List.filterMap_congr fun d hd => ?_
  obtain ⟨e, hget, hfind⟩ := getEntry_of_resolve h.kept hread (hres d hd)
  rw [hget, Function.comp_apply, ridAt, hfind]
  cases e with
  | none => rfl
  | some e => rfl

/-- Among the entries with a RID, those whose `member` values have the client's
displayed name are those that list the client. -/
def SpelledAsDisplayed (t : Tracked) (p : Partition) (clientDn : Dn) : Prop :=
  ∀ dn e, t.Stored p dn e → (rid e).isSome →
    (clientDn.display ∈ e.valuesOf "member" ↔ HasMember clientDn e)

theorem spelledAsDisplayed_iff (hk : View.Kept p.id ((t.cluster p).view p.id) (t.names p.id))
    (hr : t.Rooted p) :
    SpelledAsDisplayed t p clientDn ↔ ∀ kv ∈ t.rows p,
      (entryWhere (fun e => clientDn.display ∈ e.valuesOf "member") kv.2).bind rid =
        (entryWhere (HasMember clientDn) kv.2).bind rid := by
  constructor
  · rintro h ⟨k, v⟩ hkv
    obtain ⟨dn, e, hs, rfl, rfl⟩ := (Tracked.mem_rows hk hr).mp hkv
    rw [entryWhere_bind_rid, entryWhere_bind_rid, ite_none_eq_iff]
    exact h dn e hs
  · intro h dn e hs
    have heq := h (_, .entry e) ((Tracked.mem_rows hk hr).mpr ⟨dn, e, hs, rfl, rfl⟩)
    rwa [entryWhere_bind_rid, entryWhere_bind_rid, ite_none_eq_iff] at heq

theorem HasMember.of_displays (h : clientDn.Displays) {e : Entry}
    (hv : clientDn.display ∈ e.valuesOf "member") : HasMember clientDn e := by
  obtain ⟨d, hd, hsame⟩ := h
  exact ⟨_, hv, d, hd, hsame⟩

/-- The answer is the RIDs of the stored entries that list the client, each
entry counted once. -/
def CountsGroups (t : Tracked) (p : Partition) (baseDn clientDn : Dn) : Prop :=
  (groupRids t.store baseDn clientDn).Perm (ridsWhere t p (HasMember clientDn))

/-- In every state of a history that keeps the index exact, the answer counts
the groups of a client whose name is spelled in them as it is displayed; for a
name that survives being displayed, only then. -/
theorem countsGroups_of_spelled (p : Partition) {t₀ t : Tracked} {steps : List (Tracked × Call)}
    (hp : p ∈ t₀.store.registry.iter) (hempty : t₀.EmptyAt p)
    (hrun : Run (Tracked.Step indexSpec) t₀ steps t) (hdn : ∀ x ∈ steps, x.2.dn.Displays)
    (hspell : ∀ x ∈ steps, Tracked.SpelledAsStored indexSpec p x.1 x.2) :
    ∀ x ∈ Run.states steps t, (∀ k, (x.cluster p).readFailure k = none) →
      ∀ baseDn clientDn, x.store.registry.resolve baseDn = some p →
        (SpelledAsDisplayed x p clientDn → CountsGroups x p baseDn clientDn) ∧
        (clientDn.Displays → CountsGroups x p baseDn clientDn →
          SpelledAsDisplayed x p clientDn) := by
  have hinv := Run.invariant_of_guard (P := fun x => x.Maintained indexSpec p ∧ x.Rooted p)
    (G := fun x call => call.dn.Displays ∧ Tracked.SpelledAsStored indexSpec p x call)
    (fun _ _ _ h hG hstep => ⟨h.1.step hG.1 hG.2 hstep, h.2.step hstep⟩) hrun
    ⟨hempty.maintained hp, hempty.rooted hp⟩ fun x hx => ⟨hdn x hx, hspell x hx⟩
  intro x hx hread baseDn clientDn hbase
  obtain ⟨hm, hr⟩ := hinv x hx
  have hperm : (groupRids x.store baseDn clientDn).Perm _ := groupRids_perm hm hr hbase hread
  rw [spelledAsDisplayed_iff hm.kept hr]
  constructor
  · intro h
    rw [ridsWhere, List.filterMap_congr h] at hperm
    exact hperm
  · intro hdisp h
    refine Lists.eq_of_length_filterMap ?_ (hperm.symm.trans h).length_eq
    rintro ⟨k, v⟩ hkv
    obtain ⟨dn, e, -, -, rfl⟩ := (Tracked.mem_rows hm.kept hr).mp hkv
    rw [entryWhere_bind_rid, entryWhere_bind_rid]
    by_cases hv : clientDn.display ∈ e.valuesOf "member"
    · rw [if_pos hv, if_pos (HasMember.of_displays hdisp hv)]
      exact .inr rfl
    · exact .inl (if_neg hv)

def admins (member : Str) : Entry :=
  (Entry.new.set "member" [member]).set objectSidAttr
    [encodeBinaryAttr (Sid.encode ⟨1, 5, [21, 512]⟩)]

def withAdmins (member : Str) : Tracked :=
  ((Tracked.corpEmpty.apply indexSpec
    (.put (Tracked.corpPerson "Admins") (admins member))).toOption).getD Tracked.corpEmpty

theorem countsGroups_same_spelling :
    Tracked.Step indexSpec Tracked.corpEmpty
        (.put (Tracked.corpPerson "Admins") (admins "cn=Alice,dc=corp"))
        (withAdmins "cn=Alice,dc=corp") ∧
      CountsGroups (withAdmins "cn=Alice,dc=corp") Tracked.corp Tracked.corp.baseDn
        (Tracked.corpPerson "Alice") := by
  have hstep : Tracked.Step indexSpec Tracked.corpEmpty
    (.put (Tracked.corpPerson "Admins") (admins "cn=Alice,dc=corp"))
    (withAdmins "cn=Alice,dc=corp") := rfl
  have hempty : Tracked.corpEmpty.EmptyAt Tracked.corp := ⟨Cluster.view_empty _, rfl⟩
  refine ⟨hstep, ((countsGroups_of_spelled Tracked.corp (by decide) hempty (.cons hstep (.nil _))
    ?_ ?_ _ (Run.last_mem _ _) (fun _ => rfl) Tracked.corp.baseDn (Tracked.corpPerson "Alice")
    rfl).1 ?_)⟩
  · intro x hx
    obtain rfl := List.mem_singleton.mp hx
    exact ⟨_, rfl, rfl⟩
  · intro x hx
    obtain rfl := List.mem_singleton.mp hx
    intro _ dn₀ old hn
    cases hn
  · rintro dn e ⟨-, hfind⟩ -
    have hmem : (_, Value.entry e) ∈ (withAdmins "cn=Alice,dc=corp").rows Tracked.corp :=
      OrderedMap.mem_scan_iff.mpr
        ⟨hfind, List.isPrefixOf_iff_prefix.mpr (List.prefix_append _ _)⟩
    obtain rfl : e = admins "cn=Alice,dc=corp" :=
      Value.entry.inj (congrArg Prod.snd (List.mem_singleton.mp hmem))
    decide +kernel

theorem not_countsGroups_respelled :
    Tracked.Step indexSpec Tracked.corpEmpty
        (.put (Tracked.corpPerson "Admins") (admins "CN=Alice,DC=corp"))
        (withAdmins "CN=Alice,DC=corp") ∧
      (Tracked.corpPerson "Alice").Displays ∧
      groupRids (withAdmins "CN=Alice,DC=corp").store Tracked.corp.baseDn
        (Tracked.corpPerson "Alice") = [] ∧
      ridsWhere (withAdmins "CN=Alice,DC=corp") Tracked.corp
        (HasMember (Tracked.corpPerson "Alice")) = [512] ∧
      ¬ CountsGroups (withAdmins "CN=Alice,DC=corp") Tracked.corp Tracked.corp.baseDn
        (Tracked.corpPerson "Alice") := by
  have hnone : groupRids (withAdmins "CN=Alice,DC=corp").store Tracked.corp.baseDn
      (Tracked.corpPerson "Alice") = [] := by decide +kernel
  have hsome : ridsWhere (withAdmins "CN=Alice,DC=corp") Tracked.corp
      (HasMember (Tracked.corpPerson "Alice")) = [512] := by decide +kernel
  refine ⟨rfl, ⟨_, rfl, rfl⟩, hnone, hsome, ?_⟩
  rw [CountsGroups, hnone, hsome]
  decide

end IronDirectory.Kdc.Pac
