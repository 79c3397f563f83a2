import IronDirectory.Defs.Base.Replay
import IronDirectory.Defs.Gc.Watch
import IronDirectory.Defs.Naming.PlainName

namespace IronDirectory.Gc

open Base Naming Storage Replay

def PlainKey (pid : PartitionId) (k : Str) : Prop :=
  ∃ d : Dn, d.Wf ∧ d.Plain ∧ k = Key.entryKey pid d

def kept (whitelist : List Str) : Value → Option Entry
  | .entry e => some (project e whitelist)
  | .text _ => none

/-- The directory as the replica should show it. -/
def stored (whitelist : List Str) (kv : OrderedMap Str Value) (k : Str) : Option Entry :=
  (kv.find? k).bind (kept whitelist)

def heldAt (p : Partition) (a : Aggregate) (k : Str) : Option Entry :=
  match Tree.dnFromTreeKey p.id k with
  | .ok dn => a.get dn
  | .error _ => none

def keptChange (whitelist : List Str) (c : Str × Option Value) : Str × Option Entry :=
  (c.1, c.2.bind (kept whitelist))

def eventChange (whitelist : List Str) (e : Watch.SubtreeEvent) : Str × Option Entry :=
  match e.kind with
  | .put => (e.key, kept whitelist e.value)
  | .delete => (e.key, none)

def entryChange (whitelist : List Str) : Watch.EntryChange → Str × Option Entry
  | .put key entry => (key, some (project entry whitelist))
  | .delete key => (key, none)

def pending (whitelist : List Str) (stream : Watch.Stream) : List (Str × Option Entry) :=
  stream.flatMap fun
    | .ok resp => (resp.events.filterMap Watch.Event.subtreeEvent).map (eventChange whitelist)
    | .error _ => []

variable {p : Partition} {whitelist : List Str}

theorem dnFromTreeKey_of_plain {pid : PartitionId} {d : Dn} (hw : d.Wf) (hp : d.Plain) :
    Tree.dnFromTreeKey pid (Key.entryKey pid d) = .ok d.folded := by
  rw [Tree.dnFromTreeKey_entryKey, hp.legible.commaForm_path, hp.legible.parse_keyForm hw]
  rfl

section Replica

variable {a : Aggregate} {k : Str} {d : Dn} (hw : d.Wf) (hp : d.Plain)

include hw hp

theorem heldAt_of_plain : heldAt p a (Key.entryKey p.id d) = a.get d.folded := by
  rw [heldAt, dnFromTreeKey_of_plain hw hp]

theorem display_folded_iff {d' : Dn} (hw' : d'.Wf) (hp' : d'.Plain) (pid : PartitionId) :
    d'.folded.display = d.folded.display ↔ Key.entryKey pid d' = Key.entryKey pid d := by
  rw [hp'.display_inj hp hw' hw, Key.entryKey_inj]
  simp

theorem heldAt_upsert (e : Entry) (hk : PlainKey p.id k) :
    heldAt p (a.upsert d.folded e) k =
      Function.update (heldAt p a) (Key.entryKey p.id d) (some e) k := by
  obtain ⟨d', hw', hp', rfl⟩ := hk
  have hiff := display_folded_iff hw hp hw' hp' p.id
  rw [heldAt_of_plain hw' hp', Aggregate.get, Aggregate.upsert, OrderedMap.find?_insert]
  by_cases h : Key.entryKey p.id d' = Key.entryKey p.id d
  · rw [if_pos (hiff.mpr h), h, Function.update_self]
    rfl
  · rw [if_neg (mt hiff.mp h), Function.update_of_ne h, heldAt_of_plain hw' hp']
    rfl

theorem heldAt_remove (hk : PlainKey p.id k) :
    heldAt p (a.remove d.folded) k =
      Function.update (heldAt p a) (Key.entryKey p.id d) none k := by
  obtain ⟨d', hw', hp', rfl⟩ := hk
  have hiff := display_folded_iff hw hp hw' hp' p.id
  rw [heldAt_of_plain hw' hp', Aggregate.get, Aggregate.remove, OrderedMap.find?_erase]
  by_cases h : Key.entryKey p.id d' = Key.entryKey p.id d
  · rw [if_pos (hiff.mpr h), h, Function.update_self]
    rfl
  · rw [if_neg (mt hiff.mp h), Function.update_of_ne h, heldAt_of_plain hw' hp']
    rfl

theorem applyRow_of_plain (e : Entry) :
    applyRow p whitelist (Key.entryKey p.id d, .entry e) a =
      a.upsert d.folded (project e whitelist) := by
  simp [applyRow, applyPut, applyEntry, Value.decode, dnFromTreeKey_of_plain hw hp, Except.toOption]

theorem applyChange_put (e : Entry) :
    applyChange p whitelist (.put (Key.entryKey p.id d) e) a =
      a.upsert d.folded (project e whitelist) := by
  simp [applyChange, applyEntry, dnFromTreeKey_of_plain hw hp, Except.toOption]

theorem applyChange_delete :
    applyChange p whitelist (.delete (Key.entryKey p.id d)) a = a.remove d.folded := by
  simp [applyChange, dnFromTreeKey_of_plain hw hp]

end Replica

section Directory

variable {kv : OrderedMap Str Value} {ops : List (TxnOp Str Value)}

theorem stored_insert (k : Str) (v : Value) (kv : OrderedMap Str Value) :
    stored whitelist (kv.insert k v) =
      Function.update (stored whitelist kv) k (kept whitelist v) := by
  funext k'
  rw [stored, OrderedMap.find?_insert, Function.update_apply]
  split <;> rfl

theorem stored_erase (k : Str) (kv : OrderedMap Str Value) :
    stored whitelist (kv.erase k) = Function.update (stored whitelist kv) k none := by
  funext k'
  rw [stored, OrderedMap.find?_erase, Function.update_apply]
  split <;> rfl

theorem stored_applyAll (ops : List (TxnOp Str Value)) (kv : OrderedMap Str Value) :
    stored whitelist (TxnOp.applyAll ops kv) =
      replay ((changes ops kv).map (keptChange whitelist)) (stored whitelist kv) := by
  induction ops generalizing kv with
  | nil => rfl
  | cons op ops ih =>
    rw [TxnOp.applyAll_cons, ih]
    cases op with
    | put k v =>
      rw [changes, List.map_cons, replay_cons, TxnOp.apply, stored_insert]
      rfl
    | delete k =>
      rw [changes, TxnOp.apply, stored_erase]
      split
      · rfl
      · next habsent =>
        have hnone : stored whitelist kv k = none := by
          rw [stored, Option.not_isSome_iff_eq_none.mp habsent]
          rfl
        rw [← hnone, Function.update_eq_self]

theorem mem_changes {c : Str × Option Value} (h : c ∈ changes ops kv) :
    (∃ v, .put c.1 v ∈ ops ∧ c.2 = some v) ∨ (.delete c.1 ∈ ops ∧ c.2 = none) := by
  have hlift : ∀ (op : TxnOp Str Value) ops,
      (∃ v, .put c.1 v ∈ ops ∧ c.2 = some v) ∨ (.delete c.1 ∈ ops ∧ c.2 = none) →
      (∃ v, .put c.1 v ∈ op :: ops ∧ c.2 = some v) ∨ (.delete c.1 ∈ op :: ops ∧ c.2 = none) := by
    rintro op ops (⟨v, hmem, hv⟩ | ⟨hmem, hv⟩)
    · exact .inl ⟨v, List.mem_cons_of_mem _ hmem, hv⟩
    · exact .inr ⟨List.mem_cons_of_mem _ hmem, hv⟩
  induction ops generalizing kv with
  | nil => simp [changes] at h
  | cons op ops ih =>
    cases op with
    | put k v =>
      rw [changes, List.mem_cons] at h
      obtain rfl | h := h
      · exact .inl ⟨v, List.mem_cons_self, rfl⟩
      · exact hlift _ _ (ih h)
    | delete k =>
      rw [changes] at h
      split at h
      · obtain rfl | h := List.mem_cons.mp h
        · exact .inr ⟨List.mem_cons_self, rfl⟩
        · exact hlift _ _ (ih h)
      · exact hlift _ _ (ih h)

end Directory

section Stream

variable {stream rest : Watch.Stream}

theorem pending_append (stream stream' : Watch.Stream) :
    pending whitelist (stream ++ stream') =
      pending whitelist stream ++ pending whitelist stream' := List.flatMap_append

theorem eventChange_event (c : Str × Option Value) :
    (event c).subtreeEvent.map (eventChange whitelist) = some (keptChange whitelist c) := by
  obtain ⟨k, v⟩ := c
  cases v with
  | none => rfl
  | some v => rfl

theorem pending_responses {responses : List Watch.Response} {cs : List (Str × Option Value)}
    (h : responses.flatMap Watch.Response.events = cs.map event) :
    pending whitelist (responses.map .ok) = cs.map (keptChange whitelist) := by
  have hall : pending whitelist (responses.map .ok) =
      ((responses.flatMap Watch.Response.events).filterMap Watch.Event.subtreeEvent).map
        (eventChange whitelist) := by
    rw [pending, List.flatMap_map, List.filterMap_flatMap, List.map_flatMap]
  rw [hall, h, List.filterMap_map, ← List.filterMap_eq_map, List.filterMap_filterMap,
    ← List.filterMap_eq_map]
  refine List.filterMap_congr fun c _ => ?_
  simpa [Option.map_eq_bind] using eventChange_event c

theorem pending_of_no_events {responses : List Watch.Response}
    (h : responses.flatMap Watch.Response.events = []) :
    pending whitelist (responses.map .ok) = [] := by
  have hevents : responses.flatMap Watch.Response.events =
    ([] : List (Str × Option Value)).map event := h
  exact pending_responses hevents

def Drained (stream : Watch.Stream) : Prop :=
  ∀ r ∈ stream, ∃ resp : Watch.Response, r = .ok resp ∧ resp.events = []

theorem pending_of_drained (h : Drained stream) : pending whitelist stream = [] := by
  rw [pending, List.flatMap_eq_nil_iff]
  intro r hr
  obtain ⟨resp, rfl, hresp⟩ := h r hr
  simp [hresp]

def Single (stream : Watch.Stream) : Prop :=
  ∀ r ∈ stream, ∃ resp : Watch.Response, r = .ok resp ∧ resp.events.length ≤ 1

theorem nextSubtreeEvent_cases {ev : Watch.SubtreeEvent} (hsingle : Single stream)
    (h : Watch.nextSubtreeEvent stream = .ok (some ev, rest)) :
    pending whitelist stream = eventChange whitelist ev :: pending whitelist rest ∧
      (∃ resp : Watch.Response, .ok resp ∈ stream ∧
        ∃ e ∈ resp.events, e.subtreeEvent = some ev) ∧ rest <:+ stream := by
  induction stream with
  | nil => cases h
  | cons r stream ih =>
    obtain ⟨⟨resp, rfl, hone⟩, hstream⟩ := List.forall_mem_cons.mp hsingle
    have hcons : pending whitelist (.ok resp :: stream) =
        (resp.events.filterMap Watch.Event.subtreeEvent).map (eventChange whitelist) ++
          pending whitelist stream := List.flatMap_cons
    have htail : resp.events.tail = [] := by
      rw [← List.length_eq_zero_iff, List.length_tail]
      omega
    rw [hcons, Watch.filterMap_events, htail, List.filterMap_nil, List.append_nil]
    rw [Watch.nextSubtreeEvent_ok] at h
    cases hfirst : resp.first with
    | some ev' =>
      rw [hfirst] at h
      cases h
      obtain ⟨e, he, hev⟩ := Option.bind_eq_some_iff.mp hfirst
      exact ⟨rfl, ⟨resp, List.mem_cons_self, e, List.mem_of_mem_head? he, hev⟩,
        List.suffix_cons _ _⟩
    | none =>
      rw [hfirst] at h
      obtain ⟨hpending, ⟨resp', hresp', he⟩, hsuffix⟩ := ih hstream h
      exact ⟨hpending, ⟨resp', List.mem_cons_of_mem _ hresp', he⟩,
        hsuffix.trans (List.suffix_cons _ _)⟩

theorem eventChange_of_change {ev : Watch.SubtreeEvent} {change : Watch.EntryChange}
    (h : ev.change = .ok change) : eventChange whitelist ev = entryChange whitelist change := by
  obtain ⟨key, kind, value⟩ := ev
  cases kind with
  | delete =>
    cases h
    rfl
  | put =>
    cases value with
    | entry e =>
      cases h
      rfl
    | text s => cases h

theorem nextEntryChange_cases (whitelist : List Str) {change : Watch.EntryChange}
    (hsingle : Single stream)
    (h : Watch.nextEntryChange stream = .ok (some change, rest)) :
    pending whitelist stream = entryChange whitelist change :: pending whitelist rest ∧
      (∃ resp : Watch.Response, .ok resp ∈ stream ∧ ∃ e ∈ resp.events, ∃ ev,
        e.subtreeEvent = some ev ∧ ev.change = .ok change) ∧ rest <:+ stream := by
  obtain ⟨⟨o, rest'⟩, hnext, h⟩ := Outcome.bind_eq_ok.mp h
  cases o with
  | none => cases h
  | some ev =>
    obtain ⟨change', hchange, h⟩ := Outcome.bind_eq_ok.mp h
    cases h
    obtain ⟨hpending, ⟨resp, hresp, e, he, hev⟩, hsuffix⟩ := nextSubtreeEvent_cases hsingle hnext
    exact ⟨hpending.trans (by rw [eventChange_of_change hchange]),
      ⟨resp, hresp, e, he, ev, hev, hchange⟩, hsuffix⟩

end Stream

section Tidy

def Followed (p : Partition) (k : Str) : Prop := PlainKey p.id k ∧ watched p k = true

def TidyStore (p : Partition) (kv : OrderedMap Str Value) : Prop :=
  ∀ k v, kv.find? k = some v → watched p k = true → PlainKey p.id k ∧ ∃ e, v = .entry e

def TidyOp (p : Partition) : TxnOp Str Value → Prop
  | .put k v => watched p k = true → PlainKey p.id k ∧ ∃ e, v = .entry e
  | .delete k => watched p k = true → PlainKey p.id k

def TidyChange (p : Partition) (c : Str × Option Value) : Prop :=
  Followed p c.1 ∧ ∀ v, c.2 = some v → ∃ e, v = .entry e

def TidyStream (p : Partition) (stream : Watch.Stream) : Prop :=
  ∀ r ∈ stream, ∃ resp : Watch.Response, r = .ok resp ∧
    ∀ e ∈ resp.events, ∃ c, TidyChange p c ∧ e = event c

variable {kv : OrderedMap Str Value} {ops : List (TxnOp Str Value)} {stream : Watch.Stream}

theorem TidyStore.applyAll (h : TidyStore p kv) (hops : ∀ op ∈ ops, TidyOp p op) :
    TidyStore p (TxnOp.applyAll ops kv) := by
  intro k v hk hwatched
  obtain hk | hk := TxnOp.find?_applyAll_of_some hk
  · exact h k v hk hwatched
  · exact hops _ hk hwatched

theorem tidyChange_of_mem (hops : ∀ op ∈ ops, TidyOp p op) {c : Str × Option Value}
    (hc : c ∈ changes ops kv) (hwatched : watched p c.1 = true) : TidyChange p c := by
  obtain ⟨v, hmem, hv⟩ | ⟨hmem, hv⟩ := mem_changes hc
  · obtain ⟨hplain, e, rfl⟩ := hops _ hmem hwatched
    refine ⟨⟨hplain, hwatched⟩, fun v' hv' => ⟨e, ?_⟩⟩
    simpa using hv'.symm.trans hv
  · refine ⟨⟨hops _ hmem hwatched, hwatched⟩, fun v' hv' => ?_⟩
    simp [hv] at hv'

def told (p : Partition) (whitelist : List Str) (ops : List (TxnOp Str Value))
    (kv : OrderedMap Str Value) : List (Str × Option Entry) :=
  ((changes ops kv).filter fun c => watched p c.1).map (keptChange whitelist)

theorem replay_told {k : Str} (hk : watched p k = true) :
    replay (told p whitelist ops kv) (stored whitelist kv) k =
      stored whitelist (TxnOp.applyAll ops kv) k := by
  have hfilter : told p whitelist ops kv =
      ((changes ops kv).map (keptChange whitelist)).filter fun c => watched p c.1 := by
    rw [told, List.filter_map]
    rfl
  rw [hfilter, replay_filter hk, stored_applyAll]

theorem TidyStream.append {responses : List Watch.Response} {cs : List (Str × Option Value)}
    (h : TidyStream p stream) (hcs : ∀ c ∈ cs, TidyChange p c)
    (hevents : responses.flatMap Watch.Response.events = cs.map event) :
    TidyStream p (stream ++ responses.map .ok) := by
  intro r hr
  obtain hr | hr := List.mem_append.mp hr
  · exact h r hr
  · obtain ⟨resp, hresp, rfl⟩ := List.mem_map.mp hr
    refine ⟨resp, rfl, fun e he => ?_⟩
    have hmem : e ∈ cs.map event := hevents ▸ List.mem_flatMap.mpr ⟨resp, hresp, he⟩
    obtain ⟨c, hc, rfl⟩ := List.mem_map.mp hmem
    exact ⟨c, hcs c hc, rfl⟩

theorem TidyStream.write {responses : List Watch.Response} {connected : Bool}
    (h : TidyStream p stream) (hops : ∀ op ∈ ops, TidyOp p op)
    (hevents : responses.flatMap Watch.Response.events =
      if connected then ((changes ops kv).filter fun c => watched p c.1).map event else []) :
    TidyStream p (stream ++ responses.map .ok) := by
  cases connected with
  | true =>
    refine h.append (fun c hc => ?_) hevents
    rw [List.mem_filter] at hc
    exact tidyChange_of_mem hops hc.1 hc.2
  | false =>
    have hnone : ∀ c ∈ ([] : List (Str × Option Value)), TidyChange p c := nofun
    exact h.append hnone hevents

theorem followed_of_change {resp : Watch.Response} {e : Watch.Event} {ev : Watch.SubtreeEvent}
    {change : Watch.EntryChange} (h : TidyStream p stream) (hresp : .ok resp ∈ stream)
    (he : e ∈ resp.events) (hev : e.subtreeEvent = some ev) (hchange : ev.change = .ok change) :
    Followed p (entryChange whitelist change).1 := by
  obtain ⟨resp', heq, hall⟩ := h _ hresp
  cases heq
  obtain ⟨⟨k, v⟩, ⟨hfollowed, -⟩, rfl⟩ := hall e he
  rw [← eventChange_of_change hchange]
  cases v with
  | none =>
    cases hev
    exact hfollowed
  | some v =>
    cases hev
    exact hfollowed

end Tidy

section Effect

variable {a : Aggregate} {k : Str}

theorem heldAt_applyChange {change : Watch.EntryChange}
    (h : PlainKey p.id (entryChange whitelist change).1) (hk : PlainKey p.id k) :
    heldAt p (applyChange p whitelist change a) k =
      Function.update (heldAt p a) (entryChange whitelist change).1
        (entryChange whitelist change).2 k := by
  cases change with
  | put key e =>
    obtain ⟨d, hw, hp, rfl⟩ := h
    rw [applyChange_put hw hp, heldAt_upsert hw hp _ hk]
    rfl
  | delete key =>
    obtain ⟨d, hw, hp, rfl⟩ := h
    rw [applyChange_delete hw hp, heldAt_remove hw hp hk]
    rfl

theorem heldAt_applyRow {row : Str × Value} (h : PlainKey p.id row.1)
    (hvalue : ∃ e, row.2 = .entry e) (hk : PlainKey p.id k) :
    heldAt p (applyRow p whitelist row a) k =
      Function.update (heldAt p a) row.1 (kept whitelist row.2) k := by
  obtain ⟨key, value⟩ := row
  obtain ⟨d, hw, hp, rfl⟩ := h
  obtain ⟨e, rfl⟩ := hvalue
  rw [applyRow_of_plain hw hp, heldAt_upsert hw hp _ hk]
  rfl

theorem heldAt_applyRow_of_ne {row : Str × Value} (h : PlainKey p.id row.1) (hk : PlainKey p.id k)
    (hne : k ≠ row.1) : heldAt p (applyRow p whitelist row a) k = heldAt p a k := by
  obtain ⟨key, value⟩ := row
  cases value with
  | entry e => rw [heldAt_applyRow h ⟨e, rfl⟩ hk, Function.update_of_ne hne]
  | text s => rfl

def Named (p : Partition) (keys : Str → Prop) (a : Aggregate) : Prop :=
  ∀ text dn e, a.entries.find? text = some (dn, e) → text = dn.display ∧
    ∃ d : Dn, d.Wf ∧ d.Plain ∧ dn = d.folded ∧ keys (Key.entryKey p.id d)

variable {keys : Str → Prop}

theorem Named.upsert (h : Named p keys a) {d : Dn} (hw : d.Wf) (hp : d.Plain) (e : Entry)
    (hd : keys (Key.entryKey p.id d)) : Named p keys (a.upsert d.folded e) := by
  intro text dn e' hfind
  rw [Aggregate.upsert, OrderedMap.find?_insert] at hfind
  split at hfind
  · next htext =>
    cases hfind
    exact ⟨htext, d, hw, hp, rfl, hd⟩
  · exact h text dn e' hfind

theorem Named.remove (h : Named p keys a) (dn : Dn) : Named p keys (a.remove dn) := by
  intro text dn' e hfind
  rw [Aggregate.remove, OrderedMap.find?_erase] at hfind
  split at hfind
  · cases hfind
  · exact h text dn' e hfind

theorem Named.applyChange (h : Named p keys a) {change : Watch.EntryChange}
    (hplain : PlainKey p.id (entryChange whitelist change).1)
    (hkey : keys (entryChange whitelist change).1) :
    Named p keys (applyChange p whitelist change a) := by
  cases change with
  | put key e =>
    obtain ⟨d, hw, hp, rfl⟩ := hplain
    rw [applyChange_put hw hp]
    exact h.upsert hw hp _ hkey
  | delete key =>
    obtain ⟨d, hw, hp, rfl⟩ := hplain
    rw [applyChange_delete hw hp]
    exact h.remove _

theorem Named.applyRow (h : Named p keys a) {row : Str × Value} (hplain : PlainKey p.id row.1)
    (hkey : keys row.1) : Named p keys (applyRow p whitelist row a) := by
  obtain ⟨key, value⟩ := row
  cases value with
  | entry e =>
    obtain ⟨d, hw, hp, rfl⟩ := hplain
    rw [applyRow_of_plain hw hp]
    exact h.upsert hw hp _ hkey
  | text s => exact h

end Effect

end IronDirectory.Gc
