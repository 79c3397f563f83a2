import IronDirectory.Defs.Gc.Convergence

/-! Session after session over one replica.  A session only adds rows to what
the last one left, so it repairs everything but removals nobody reported, and
follows everything but the base. -/

namespace IronDirectory.Gc

open Base Naming Storage Replay

def baseKey (p : Partition) : Str := Key.entryKey p.id p.baseDn

structure Resynced (p : Partition) (whitelist : List Str) (s : System) : Prop where
  present : ∀ text dn e, s.aggregate.entries.find? text = some (dn, e) →
    ∃ e₀, s.kv.find? (Key.entryKey p.id dn) = some (.entry e₀)
  base : heldAt p s.aggregate (baseKey p) = stored whitelist s.kv (baseKey p)

def Stage.baseRead : Stage → Bool
  | .loading _ => true
  | .watching => true
  | _ => false

/-- A write that the replica can follow: each event has a response of its own,
nothing held is removed while no session watches it, and the base is not
touched once it has been read. -/
structure GentleWrite (p : Partition) (s : System) (ops : List (TxnOp Str Value))
    (responses : List Watch.Response) : Prop where
  tidy : ∀ op ∈ ops, TidyOp p op
  entry : ∀ v, .put (baseKey p) v ∈ ops → ∃ e, v = .entry e
  single : ∀ resp ∈ responses, resp.events.length ≤ 1
  unseen : s.stage.connected = false → ∀ k, .delete k ∈ ops → watched p k = true →
    heldAt p s.aggregate k = none
  base : s.stage.baseRead = true → ∀ op ∈ ops, op.key ≠ baseKey p
  unread : .delete (baseKey p) ∈ ops → heldAt p s.aggregate (baseKey p) = none

def Gentle (p : Partition) (whitelist : List Str) (s : System) : Action → Prop
  | .write ops responses => GentleWrite p s ops responses
  | .disconnect => ∀ c ∈ pending whitelist s.stream, c.2 = none →
    heldAt p s.aggregate c.1 = none
  | _ => True

def Stage.rows (stage : Stage) : List (Str × Value) := stage.rows?.getD []

def loaded (p : Partition) (whitelist : List Str) (s : System) : Str → Option Entry :=
  replay (rowChanges whitelist s.stage.rows) (heldAt p s.aggregate)

structure Resyncing (p : Partition) (whitelist : List Str) (s : System) : Prop where
  tidy : TidyStore p s.kv
  entry : ∀ v, s.kv.find? (baseKey p) = some v → ∃ e, v = .entry e
  stream : TidyStream p s.stream
  single : Single s.stream
  named : Named p (Readable p) s.aggregate
  rows : ∀ row ∈ s.stage.rows, Readable p row.1 ∧ ∃ e, row.2 = .entry e
  idle : s.stage.connected = false → pending whitelist s.stream = []
  covers : Covers (Followed p) (pending whitelist s.stream) (loaded p whitelist s)
    (stored whitelist s.kv)
  read : s.stage.baseRead = true →
    loaded p whitelist s (baseKey p) = stored whitelist s.kv (baseKey p)
  unread : s.stage.baseRead = false → (∀ row ∈ s.stage.rows, Followed p row.1) ∧
    ((heldAt p s.aggregate (baseKey p)).isSome = true →
      (stored whitelist s.kv (baseKey p)).isSome = true)

variable {p : Partition} {whitelist : List Str} {s s' : System} {act : Action}

theorem isSome_stored {kv : OrderedMap Str Value} {k : Str} :
    (stored whitelist kv k).isSome = true ↔ ∃ e, kv.find? k = some (.entry e) := by
  rw [stored]
  cases kv.find? k with
  | none => simp
  | some v =>
    cases v with
    | entry e => simp [kept]
    | text t => simp [kept]

theorem isSome_stored_of_entry {kv : OrderedMap Str Value} {k : Str}
    (hentry : ∀ v, kv.find? k = some v → ∃ e, v = .entry e) (h : (kv.find? k).isSome = true) :
    (stored whitelist kv k).isSome = true := by
  obtain ⟨v, hv⟩ := Option.isSome_iff_exists.mp h
  obtain ⟨e, rfl⟩ := hentry v hv
  exact isSome_stored.mpr ⟨e, hv⟩

theorem isSome_find?_of_stored {kv : OrderedMap Str Value} {k : Str}
    (h : (stored whitelist kv k).isSome = true) : (kv.find? k).isSome = true := by
  obtain ⟨e, he⟩ := isSome_stored.mp h
  rw [he]
  rfl

theorem heldAt_new (p : Partition) (k : Str) : heldAt p .new k = none := by
  rw [heldAt]
  split <;> rfl

theorem resyncing_fresh {kv : OrderedMap Str Value} (h : TidyStore p kv)
    (hentry : ∀ v, kv.find? (baseKey p) = some v → ∃ e, v = .entry e) :
    Resyncing p whitelist (System.fresh kv) where
  tidy := h
  entry := hentry
  stream := nofun
  single := nofun
  named := by
    intro text dn e hfind
    cases hfind
  rows := nofun
  idle _ := rfl
  covers k _ hheld := by
    have hnone : (heldAt p .new k).isSome = true := hheld
    simp [heldAt_new] at hnone
  read h := nomatch h
  unread _ := by
    refine ⟨nofun, fun hheld => ?_⟩
    simp [System.fresh, heldAt_new] at hheld

theorem Resyncing.isSome_loaded {k : Str} (h : Resyncing p whitelist s)
    (hk : (heldAt p s.aggregate k).isSome = true) : (loaded p whitelist s k).isSome = true := by
  refine isSome_replay hk ?_
  intro c hc _
  obtain ⟨row, hrow, rfl⟩ := List.mem_map.mp hc
  obtain ⟨-, e, he⟩ := h.rows row hrow
  rw [he]
  rfl

theorem Resyncing.isSome_base (h : Resyncing p whitelist s)
    (hheld : (heldAt p s.aggregate (baseKey p)).isSome = true) :
    (stored whitelist s.kv (baseKey p)).isSome = true := by
  cases hread : s.stage.baseRead with
  | true => exact h.read hread ▸ h.isSome_loaded hheld
  | false => exact (h.unread hread).2 hheld

theorem Resyncing.covers_write {ops : List (TxnOp Str Value)} {responses : List Watch.Response}
    (h : Resyncing p whitelist s) (hw : GentleWrite p s ops responses)
    (hevents : responses.flatMap Watch.Response.events =
      if s.stage.connected then
        ((changes ops s.kv).filter fun c => watched p c.1).map event
      else []) :
    Covers (Followed p) (pending whitelist (s.stream ++ responses.map .ok)) (loaded p whitelist s)
      (stored whitelist (TxnOp.applyAll ops s.kv)) := by
  rw [pending_append]
  cases hstage : s.stage.connected with
  | true =>
    rw [hstage, if_pos rfl] at hevents
    rw [pending_responses hevents]
    exact (h.covers.write _).congr (fun _ _ => rfl) fun k hk => (replay_told hk.2).symm
  | false =>
    rw [hstage] at hevents
    have hnone : pending whitelist (responses.map .ok) = [] := pending_of_no_events hevents
    have hrows : s.stage.rows = [] := by
      cases hs : s.stage with
      | idle => rfl
      | _ => simp [hs, Stage.connected] at hstage
    have hcovers := h.covers
    rw [h.idle hstage] at hcovers
    rw [h.idle hstage, hnone]
    intro k hk hheld
    have hpresent := isSome_find?_of_stored (hcovers k hk hheld)
    refine isSome_stored_of_entry (fun v hv => ((h.tidy.applyAll hw.tidy) k v hv hk.2).2)
      (TxnOp.isSome_find?_applyAll hpresent fun hdelete => ?_)
    have habsent := hw.unseen hstage k hdelete hk.2
    rw [List.append_nil, replay_nil, loaded, hrows] at hheld
    simp [rowChanges, habsent] at hheld

theorem Resyncing.entry_write {ops : List (TxnOp Str Value)} {responses : List Watch.Response}
    (h : Resyncing p whitelist s) (hw : GentleWrite p s ops responses) (v : Value)
    (hv : (TxnOp.applyAll ops s.kv).find? (baseKey p) = some v) : ∃ e, v = .entry e := by
  obtain hv | hv := TxnOp.find?_applyAll_of_some hv
  · exact h.entry v hv
  · exact hw.entry v hv

theorem Resyncing.write {ops : List (TxnOp Str Value)} {responses : List Watch.Response}
    (h : Resyncing p whitelist s) (hw : GentleWrite p s ops responses)
    (hevents : responses.flatMap Watch.Response.events =
      if s.stage.connected then
        ((changes ops s.kv).filter fun c => watched p c.1).map event
      else []) :
    Resyncing p whitelist
      { s with kv := TxnOp.applyAll ops s.kv, stream := s.stream ++ responses.map .ok } where
  tidy := h.tidy.applyAll hw.tidy
  entry := h.entry_write hw
  stream := h.stream.write hw.tidy hevents
  single := h.single.append hw.single
  named := h.named
  rows := h.rows
  idle hstage := by
    rw [hstage] at hevents
    rw [pending_append, h.idle hstage, pending_of_no_events hevents]
    rfl
  covers := h.covers_write hw hevents
  read hread := by
    rw [stored, TxnOp.find?_applyAll_of_not_key (hw.base hread)]
    exact h.read hread
  unread hread := by
    refine ⟨(h.unread hread).1, fun hheld => ?_⟩
    refine isSome_stored_of_entry (h.entry_write hw) (TxnOp.isSome_find?_applyAll ?_ fun hdelete => ?_)
    · exact isSome_find?_of_stored ((h.unread hread).2 hheld)
    · simp [hw.unread hdelete] at hheld

theorem Resyncing.subscribe (h : Resyncing p whitelist s) (hstage : s.stage = .idle) :
    Resyncing p whitelist { s with stage := .subscribed, stream := [] } where
  tidy := h.tidy
  entry := h.entry
  stream := nofun
  single := nofun
  named := h.named
  rows := nofun
  idle := nofun
  covers := by
    have hcovers := h.covers
    rw [h.idle (by rw [hstage]; rfl), loaded, hstage] at hcovers
    exact hcovers
  read := nofun
  unread _ := ⟨nofun, h.isSome_base⟩

theorem rowChanges_keys (rows : List (Str × Value)) :
    (rowChanges whitelist rows).map Prod.fst = rows.map Prod.fst := by
  rw [rowChanges, List.map_map]
  rfl

theorem Resyncing.range (h : Resyncing p whitelist s) (hstage : s.stage = .subscribed) :
    Resyncing p whitelist { s with stage := .ranged (s.kv.scan (watched p)) } := by
  have hscan : ∀ row ∈ s.kv.scan (watched p), s.kv.find? row.1 = some row.2 ∧
      Followed p row.1 ∧ ∃ e, row.2 = .entry e := by
    intro row hrow
    obtain ⟨hfind, hwatched⟩ := OrderedMap.mem_scan_iff.mp hrow
    obtain ⟨hplain, he⟩ := h.tidy _ _ hfind hwatched
    exact ⟨hfind, ⟨hplain, hwatched⟩, he⟩
  refine ⟨h.tidy, h.entry, h.stream, h.single, h.named, ?_, nofun, ?_, nofun, ?_⟩
  · intro row hrow
    exact ⟨.inl (hscan row hrow).2.1, (hscan row hrow).2.2⟩
  · have hcovers := h.covers
    rw [loaded, hstage] at hcovers
    refine Covers.put hcovers fun k _ hk => ?_
    rw [rowChanges_keys] at hk
    obtain ⟨row, hrow, rfl⟩ := List.mem_map.mp hk
    obtain ⟨hfind, -, e, he⟩ := hscan row hrow
    exact isSome_stored.mpr ⟨e, he ▸ hfind⟩
  · exact fun _ => ⟨fun row hrow => (hscan row hrow).2.1, h.isSome_base⟩

theorem Resyncing.base {rows : List (Str × Value)} (h : Resyncing p whitelist s)
    (hstage : s.stage = .ranged rows) :
    Resyncing p whitelist
      { s with
        stage := .loading (((s.kv.find? (Key.entryKey p.id p.baseDn)).map fun v =>
          (Key.entryKey p.id p.baseDn, v)).toList ++ rows) } := by
  have hrows := h.rows
  obtain ⟨hfollowed, hunread⟩ := h.unread (by rw [hstage]; rfl)
  have hcovers := h.covers
  rw [loaded, hstage] at hcovers
  rw [hstage] at hrows hfollowed
  have hbase : baseKey p ∉ (rowChanges whitelist rows).map Prod.fst := by
    rw [rowChanges_keys]
    intro hmem
    obtain ⟨row, hrow, hkey⟩ := List.mem_map.mp hmem
    exact (hfollowed row hrow).ne_base hkey
  cases hfind : s.kv.find? (Key.entryKey p.id p.baseDn) with
  | none =>
    have hnone : stored whitelist s.kv (baseKey p) = none := by
      rw [stored, baseKey, hfind]
      rfl
    rw [hnone] at hunread
    refine ⟨h.tidy, h.entry, h.stream, h.single, h.named, hrows, (fun hidle => by cases hidle), hcovers,
      fun _ => ?_, (fun hno => by cases hno)⟩
    refine (replay_of_not_mem hbase).trans ?_
    rw [hnone]
    simpa using hunread
  | some v =>
    refine ⟨h.tidy, h.entry, h.stream, h.single, h.named,
      List.forall_mem_cons.mpr ⟨⟨.inr rfl, h.entry v hfind⟩, hrows⟩, (fun hidle => by cases hidle), ?_,
      fun _ => ?_, (fun hno => by cases hno)⟩
    · refine hcovers.congr (fun k hk => ?_) fun _ _ => rfl
      exact replay_congr (Function.update_of_ne hk.ne_base _ _)
    · refine (replay_of_not_mem hbase).trans ?_
      rw [stored, baseKey, hfind]
      exact Function.update_self _ _ _

theorem Resyncing.ready (h : Resyncing p whitelist s) (hstage : s.stage = .loading []) :
    Resyncing p whitelist
      { s with aggregate := s.aggregate.markReady p.id, stage := .watching } := by
  have hcovers := h.covers
  have hread := h.read (by rw [hstage]; rfl)
  rw [loaded, hstage] at hcovers hread
  exact ⟨h.tidy, h.entry, h.stream, h.single, h.named, nofun, nofun, hcovers, fun _ => hread, nofun⟩

theorem Resyncing.disconnect (h : Resyncing p whitelist s)
    (hgentle : ∀ c ∈ pending whitelist s.stream, c.2 = none → heldAt p s.aggregate c.1 = none) :
    Resyncing p whitelist { s with stage := .idle, stream := [] } where
  tidy := h.tidy
  entry := h.entry
  stream := nofun
  single := nofun
  named := h.named
  rows := nofun
  idle _ := rfl
  covers := by
    intro k hk hheld
    refine h.covers k hk (isSome_replay (h.isSome_loaded hheld) ?_)
    rintro c hc rfl
    cases hv : c.2 with
    | some v => rfl
    | none =>
      have hnone := hgentle c hc hv
      simp [loaded, Stage.rows, Stage.rows?, rowChanges, pending, hnone] at hheld
  read := nofun
  unread _ := ⟨nofun, h.isSome_base⟩

section Base

variable (hbase : p.baseDn.Wf) (hplain : p.baseDn.Plain)

include hbase hplain

theorem Readable.plain {k : Str} (h : Readable p k) : PlainKey p.id k := by
  obtain h | rfl := h
  · exact h.1
  · exact plainKey_base hbase hplain

theorem Resyncing.load {row : Str × Value} {rows : List (Str × Value)}
    (h : Resyncing p whitelist s) (hstage : s.stage = .loading (row :: rows)) :
    Resyncing p whitelist
      { s with aggregate := applyRow p whitelist row s.aggregate, stage := .loading rows } := by
  have hrows := h.rows
  have hcovers := h.covers
  have hread := h.read (by rw [hstage]; rfl)
  rw [hstage] at hrows
  rw [loaded, hstage] at hcovers hread
  obtain ⟨⟨hrow, he⟩, hrows⟩ := List.forall_mem_cons.mp hrows
  have hrowPlain := hrow.plain hbase hplain
  have happly : ∀ k, PlainKey p.id k →
      replay (rowChanges whitelist rows) (heldAt p (applyRow p whitelist row s.aggregate)) k =
        replay (rowChanges whitelist (row :: rows)) (heldAt p s.aggregate) k := fun k hk =>
    replay_congr (heldAt_applyRow hrowPlain he hk)
  refine ⟨h.tidy, h.entry, h.stream, h.single, h.named.applyRow hrowPlain hrow, hrows, nofun, ?_,
    fun _ => ?_, nofun⟩
  · exact hcovers.congr (fun k hk => happly k hk.1) fun _ _ => rfl
  · exact (happly _ (plainKey_base hbase hplain)).trans hread

theorem Resyncing.deliver {change : Watch.EntryChange} {rest : Watch.Stream}
    (h : Resyncing p whitelist s) (hstage : s.stage = .watching)
    (hnext : Watch.nextEntryChange s.stream = .ok (some change, rest)) :
    Resyncing p whitelist
      { s with aggregate := applyChange p whitelist change s.aggregate, stream := rest } := by
  obtain ⟨hpending, ⟨resp, hresp, e, he, ev, hev, hchange⟩, hsuffix⟩ :=
    nextEntryChange_cases whitelist h.single hnext
  have hfollowed : Followed p (entryChange whitelist change).1 :=
    followed_of_change h.stream hresp he hev hchange
  have hcovers := h.covers
  have hread := h.read (by rw [hstage]; rfl)
  rw [loaded, hstage] at hcovers hread
  rw [hpending] at hcovers
  refine ⟨h.tidy, h.entry, fun r hr => h.stream r (hsuffix.subset hr),
    fun r hr => h.single r (hsuffix.subset hr), h.named.applyChange hfollowed.1 (.inl hfollowed),
    ?_, ?_, ?_, fun _ => ?_, ?_⟩
  · exact h.rows
  · rw [hstage]
    nofun
  · rw [loaded, hstage]
    exact Covers.congr hcovers (fun k hk => heldAt_applyChange hfollowed.1 hk.1) fun _ _ => rfl
  · rw [loaded, hstage]
    refine (heldAt_applyChange hfollowed.1 (plainKey_base hbase hplain)).trans ?_
    exact (Function.update_of_ne hfollowed.ne_base.symm _ _).trans hread
  · rw [hstage]
    nofun

theorem Resyncing.step (h : Resyncing p whitelist s) (hact : Gentle p whitelist s act)
    (hstep : Step p whitelist s act s') : Resyncing p whitelist s' := by
  cases hstep with
  | write hevents => exact h.write hact hevents
  | subscribe hstage => exact h.subscribe hstage
  | range hstage => exact h.range hstage
  | base hstage => exact h.base hstage
  | load hstage => exact h.load hbase hplain hstage
  | ready hstage => exact h.ready hstage
  | deliver hstage hnext => exact h.deliver hbase hplain hstage hnext
  | disconnect => exact h.disconnect hact

end Base

theorem Resyncing.resynced (h : Resyncing p whitelist s) (hstage : s.stage = .watching)
    (hdrained : Drained s.stream) : Resynced p whitelist s := by
  have hcovers := h.covers
  have hread := h.read (by rw [hstage]; rfl)
  rw [loaded, hstage] at hcovers hread
  rw [pending_of_drained hdrained] at hcovers
  refine ⟨fun text dn e hfind => ?_, hread⟩
  obtain ⟨rfl, d, hw, hp, rfl, hkey⟩ := h.named text dn e hfind
  have hheld : (heldAt p s.aggregate (Key.entryKey p.id d)).isSome = true := by
    rw [heldAt_of_plain hw hp, Aggregate.get, hfind]
    rfl
  rw [Key.entryKey_congr d.folded_same]
  refine isSome_stored.mp (?_ : (stored whitelist s.kv _).isSome = true)
  obtain hfollowed | hbase := hkey
  · exact hcovers _ hfollowed hheld
  · rw [hbase] at hheld ⊢
    exact hread ▸ hheld

/-- However many sessions follow one another, if nothing held is removed unseen
and the base is left alone once read, a session that has nothing left to
deliver holds only what is stored. -/
theorem resynced_when_drained (p : Partition) (whitelist : List Str) {kv : OrderedMap Str Value}
    {t : System} {steps : List (System × Action)} (hbase : p.baseDn.Wf) (hplain : p.baseDn.Plain)
    (hkv : TidyStore p kv) (hentry : ∀ v, kv.find? (baseKey p) = some v → ∃ e, v = .entry e)
    (hrun : Run (Step p whitelist) (System.fresh kv) steps t)
    (hsteps : ∀ x ∈ steps, Gentle p whitelist x.1 x.2) : ∀ x ∈ Run.states steps t,
      x.stage = .watching → Drained x.stream → Resynced p whitelist x := by
  intro x hx hstage hdrained
  have hresyncing : Resyncing p whitelist x :=
    Run.invariant_of_guard (fun _ _ _ h hact hstep => h.step hbase hplain hact hstep) hrun
      (resyncing_fresh hkv hentry) hsteps x hx
  exact hresyncing.resynced hstage hdrained

theorem GentleWrite.putBase (hstage : s.stage.baseRead = false) (e : Entry) :
    GentleWrite p s [.put (baseKey p) (.entry e)] [] where
  tidy := by
    intro op hop
    rw [List.mem_singleton] at hop
    subst hop
    intro hwatched
    rw [baseKey, not_watched_base] at hwatched
    cases hwatched
  entry v hv := by
    simp only [List.mem_singleton, TxnOp.put.injEq, true_and] at hv
    exact ⟨e, hv⟩
  single := nofun
  unseen _ k hk := by simp at hk
  base hread := by simp [hstage] at hread
  unread hk := by simp at hk

section Samples

open Tracked (corp corpPerson withMail)

def corpBase : Value := .entry (Entry.new.set "dc" ["corp"])

def renamedBase : Value := .entry (Entry.new.set "dc" ["CORP"])

def corpSystem : System :=
  System.fresh ((OrderedMap.empty.insert (baseKey corp) corpBase).insert aliceKey
    (.entry (withMail "alice@corp")))

theorem corpSystem_cases {k : Str} {v : Value} (h : corpSystem.kv.find? k = some v) :
    (k = aliceKey ∨ k = baseKey corp) ∧ ∃ e, v = .entry e := by
  rw [corpSystem, System.fresh, OrderedMap.find?_insert, OrderedMap.find?_insert] at h
  split at h
  · next hk =>
    cases h
    exact ⟨.inl hk, _, rfl⟩
  · split at h
    · next hk =>
      cases h
      exact ⟨.inr hk, _, rfl⟩
    · cases h

theorem tidyStore_corpSystem : TidyStore corp corpSystem.kv := by
  intro k v hfind hwatched
  obtain ⟨rfl | rfl, he⟩ := corpSystem_cases hfind
  · exact ⟨plainKey_alice, he⟩
  · rw [baseKey, not_watched_base] at hwatched
    cases hwatched

theorem resynced_corp :
    ∃ steps t, Run (Step corp ["mail", "dc"]) corpSystem steps t ∧
      (t.aggregate.get corp.baseDn).isSome = true ∧ Resynced corp ["mail", "dc"] t := by
  have hfirst : Step corp ["mail", "dc"] corpSystem .subscribe _ := .subscribe rfl
  have hwrite : ∀ a, Step corp ["mail", "dc"] ⟨corpSystem.kv, a, .idle, []⟩
    (.write [.put (baseKey corp) renamedBase] []) _ := fun a => .write rfl
  have hrun := Run.cons hfirst (Run.cons (.range rfl) (Run.cons (.base rfl) (Run.cons (.load rfl)
    (Run.cons (.load rfl) (Run.cons (.ready rfl) (Run.cons .disconnect (Run.cons (hwrite _)
      (Run.cons (.subscribe rfl) (Run.cons (.range rfl) (Run.cons (.base rfl) (Run.cons (.load rfl)
        (Run.cons (.load rfl) (Run.cons (.ready rfl) (.nil _))))))))))))))
  refine ⟨_, _, hrun, rfl, resynced_when_drained corp ["mail", "dc"]
    (Dn.parse_wf (s := "dc=corp") rfl) (by decide +kernel) tidyStore_corpSystem
    (fun v hv => (corpSystem_cases hv).2) hrun ?_ _ (Run.last_mem _ _) rfl nofun⟩
  simp only [List.forall_mem_cons]
  exact ⟨trivial, trivial, trivial, trivial, trivial, trivial, nofun, .putBase rfl _, trivial,
    trivial, trivial, trivial, trivial, trivial, nofun⟩

/-- Alice is removed between two sessions, and is still there after the
second. -/
theorem not_resynced_alice :
    ∃ steps t, Run (Step corp ["mail", "dc"]) corpSystem steps t ∧
      t.stage = .watching ∧ Drained t.stream ∧ (t.kv.find? aliceKey).isNone = true ∧
      (heldAt corp t.aggregate aliceKey).isSome = true ∧ ¬ Resynced corp ["mail", "dc"] t := by
  have hfirst : Step corp ["mail", "dc"] corpSystem .subscribe _ := .subscribe rfl
  have hwrite : ∀ a, Step corp ["mail", "dc"] ⟨corpSystem.kv, a, .idle, []⟩
    (.write [.delete aliceKey] []) _ := fun a => .write rfl
  have hrun := Run.cons hfirst (Run.cons (.range rfl) (Run.cons (.base rfl) (Run.cons (.load rfl)
    (Run.cons (.load rfl) (Run.cons (.ready rfl) (Run.cons .disconnect (Run.cons (hwrite _)
      (Run.cons (.subscribe rfl) (Run.cons (.range rfl) (Run.cons (.base rfl) (Run.cons (.load rfl)
        (Run.cons (.ready rfl) (.nil _)))))))))))))
  refine ⟨_, _, hrun, rfl, nofun, rfl, rfl, fun h => ?_⟩
  obtain ⟨e, he⟩ := h.present (corpPerson "alice").display _ _ rfl
  cases he

end Samples

end IronDirectory.Gc
