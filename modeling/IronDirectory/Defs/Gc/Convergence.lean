import IronDirectory.Defs.Gc.WatchLaws

namespace IronDirectory.Gc

open Base Naming Storage Replay

def System.fresh (kv : OrderedMap Str Value) : System := ⟨kv, .new, .idle, []⟩

/-- Below the base, the replica holds the projection of every stored entry and
nothing else. -/
structure Mirrors (p : Partition) (whitelist : List Str) (s : System) : Prop where
  sound : ∀ text dn e, s.aggregate.entries.find? text = some (dn, e) →
    dn.isStrictDescendantOf p.baseDn = true →
    ∃ e₀, s.kv.find? (Key.entryKey p.id dn) = some (.entry e₀) ∧ e = project e₀ whitelist
  complete : ∀ d : Dn, d.Wf → d.Plain → d.isStrictDescendantOf p.baseDn = true → ∀ e₀,
    s.kv.find? (Key.entryKey p.id d) = some (.entry e₀) →
    ∃ dn, dn.Same d ∧ s.aggregate.entries.find? dn.display = some (dn, project e₀ whitelist)
  single : ∀ text text' dn dn' e e', s.aggregate.entries.find? text = some (dn, e) →
    s.aggregate.entries.find? text' = some (dn', e') → dn.Same dn' → text = text'

/-- Names are plain, entries decode, every event has a response of its own, and
the session goes on. -/
def Orderly (p : Partition) : Action → Prop
  | .write ops responses =>
    (∀ op ∈ ops, TidyOp p op) ∧ ∀ resp ∈ responses, resp.events.length ≤ 1
  | .disconnect => False
  | _ => True

def rowChanges (whitelist : List Str) (rows : List (Str × Value)) : List (Str × Option Entry) :=
  rows.map fun row => (row.1, kept whitelist row.2)

def Readable (p : Partition) (k : Str) : Prop :=
  Followed p k ∨ k = Key.entryKey p.id p.baseDn

def TidyRows (p : Partition) (rows : List (Str × Value)) : Prop :=
  ∀ row ∈ rows, (Followed p row.1 ∧ ∃ e, row.2 = .entry e) ∨ row.1 = Key.entryKey p.id p.baseDn

def Stage.rows? : Stage → Option (List (Str × Value))
  | .idle => none
  | .subscribed => none
  | .ranged rows => some rows
  | .loading rows => some rows
  | .watching => some []

/-- How far the replica is from the directory: after the scan, by the rows it
has not applied and the events it has not seen. -/
inductive Settled (p : Partition) (whitelist : List Str) (s : System) : Prop
  | idle : s.stage = .idle → s.aggregate.entries = .empty → Settled p whitelist s
  | subscribed : s.stage = .subscribed → s.aggregate.entries = .empty →
    Settles (Followed p) (pending whitelist s.stream) (stored whitelist s.kv)
      (stored whitelist s.kv) → Settled p whitelist s
  | scanned {rows : List (Str × Value)} : s.stage.rows? = some rows → TidyRows p rows →
    Settles (Followed p) (pending whitelist s.stream)
      (replay (rowChanges whitelist rows) (heldAt p s.aggregate)) (stored whitelist s.kv) →
    Settled p whitelist s

structure Converging (p : Partition) (whitelist : List Str) (s : System) : Prop where
  tidy : TidyStore p s.kv
  stream : TidyStream p s.stream
  single : Single s.stream
  named : Named p (Readable p) s.aggregate
  settled : Settled p whitelist s

variable {p : Partition} {whitelist : List Str} {s s' : System} {act : Action}

theorem converging_fresh {kv : OrderedMap Str Value} (h : TidyStore p kv) :
    Converging p whitelist (System.fresh kv) where
  tidy := h
  stream := by simp [System.fresh, TidyStream]
  single := by simp [System.fresh, Single]
  named := by
    intro text dn e hfind
    cases hfind
  settled := .idle rfl rfl

theorem Single.append {stream : Watch.Stream} {responses : List Watch.Response}
    (h : Single stream) (hone : ∀ resp ∈ responses, resp.events.length ≤ 1) :
    Single (stream ++ responses.map .ok) := by
  intro r hr
  obtain hr | hr := List.mem_append.mp hr
  · exact h r hr
  · obtain ⟨resp, hresp, rfl⟩ := List.mem_map.mp hr
    exact ⟨resp, rfl, hone resp hresp⟩

theorem Settled.write {ops : List (TxnOp Str Value)} {responses : List Watch.Response}
    (h : Settled p whitelist s)
    (hpending : s.stage.connected = true →
      pending whitelist (responses.map .ok) = told p whitelist ops s.kv) :
    Settled p whitelist
      { s with kv := TxnOp.applyAll ops s.kv, stream := s.stream ++ responses.map .ok } := by
  have hstore : ∀ k, Followed p k → stored whitelist (TxnOp.applyAll ops s.kv) k =
      replay (told p whitelist ops s.kv) (stored whitelist s.kv) k := fun k hk =>
    (replay_told hk.2).symm
  cases h with
  | idle hstage hempty => exact .idle hstage hempty
  | subscribed hstage hempty hsettles =>
    refine .subscribed hstage hempty ?_
    rw [pending_append, hpending (by simp [hstage, Stage.connected])]
    exact (hsettles.write_self _).congr hstore hstore
  | scanned hrows htidy hsettles =>
    have hconnected : s.stage.connected = true := by
      cases hstage : s.stage with
      | idle => simp [hstage, Stage.rows?] at hrows
      | _ => rfl
    refine .scanned hrows htidy ?_
    rw [pending_append, hpending hconnected]
    exact (hsettles.write _).congr (fun _ _ => rfl) hstore

theorem Converging.write {ops : List (TxnOp Str Value)} {responses : List Watch.Response}
    (h : Converging p whitelist s) (hops : ∀ op ∈ ops, TidyOp p op)
    (hone : ∀ resp ∈ responses, resp.events.length ≤ 1)
    (hevents : responses.flatMap Watch.Response.events =
      if s.stage.connected then
        ((changes ops s.kv).filter fun c => watched p c.1).map event
      else []) :
    Converging p whitelist
      { s with kv := TxnOp.applyAll ops s.kv, stream := s.stream ++ responses.map .ok } := by
  refine ⟨h.tidy.applyAll hops, h.stream.write hops hevents, h.single.append hone, h.named,
    h.settled.write fun hconnected => ?_⟩
  rw [if_pos hconnected] at hevents
  exact pending_responses hevents

theorem isPrefix_of_watched {k : Str} :
    watched p k = true ↔ Key.subtreePrefix p.id p.baseDn <+: k := by
  simp [watched]

theorem not_watched_base : watched p (Key.entryKey p.id p.baseDn) = false := by
  rw [Bool.eq_false_iff, Ne, isPrefix_of_watched]
  exact Key.not_subtreePrefix_isPrefix_self p.id p.baseDn

theorem replay_scan {k : Str} (hk : Followed p k) (hempty : s.aggregate.entries = .empty) :
    replay (rowChanges whitelist (s.kv.scan (watched p))) (heldAt p s.aggregate) k =
      stored whitelist s.kv k := by
  have hkeys : (rowChanges whitelist (s.kv.scan (watched p))).map Prod.fst =
      (s.kv.scan (watched p)).map Prod.fst := by
    rw [rowChanges, List.map_map]
    rfl
  cases hfind : s.kv.find? k with
  | some v =>
    rw [stored, hfind]
    refine replay_of_nodup (v := kept whitelist v) ?_ ?_
    · exact List.mem_map.mpr ⟨(k, v), OrderedMap.mem_scan_iff.mpr ⟨hfind, hk.2⟩, rfl⟩
    · rw [hkeys, List.nodup_iff_pairwise_ne, List.pairwise_map]
      exact (s.kv.scan_sorted (watched p)).imp fun hlt => hlt.ne
  | none =>
    rw [replay_of_not_mem, stored, hfind]
    · obtain ⟨d, hw, hp, rfl⟩ := hk.1
      rw [heldAt_of_plain hw hp, Aggregate.get, hempty]
      rfl
    · rw [hkeys, List.mem_map]
      rintro ⟨⟨k', v⟩, hmem, rfl⟩
      rw [OrderedMap.mem_scan_iff, hfind] at hmem
      cases hmem.1

theorem Converging.subscribe (h : Converging p whitelist s) (hstage : s.stage = .idle) :
    Converging p whitelist { s with stage := .subscribed, stream := [] } := by
  refine ⟨h.tidy, nofun, nofun, h.named, ?_⟩
  cases h.settled with
  | idle _ hempty => exact .subscribed rfl hempty fun _ _ => rfl
  | subscribed hsub _ _ => cases hstage.symm.trans hsub
  | scanned hrows _ _ => simp [hstage, Stage.rows?] at hrows

theorem Converging.range (h : Converging p whitelist s) (hstage : s.stage = .subscribed) :
    Converging p whitelist { s with stage := .ranged (s.kv.scan (watched p)) } := by
  refine ⟨h.tidy, h.stream, h.single, h.named, ?_⟩
  cases h.settled with
  | idle hidle _ => cases hstage.symm.trans hidle
  | scanned hrows _ _ => simp [hstage, Stage.rows?] at hrows
  | subscribed _ hempty hsettles =>
    refine .scanned rfl ?_ (hsettles.congr (fun k hk => replay_scan hk hempty) fun _ _ => rfl)
    rintro ⟨k, v⟩ hmem
    obtain ⟨hfind, hwatched⟩ := OrderedMap.mem_scan_iff.mp hmem
    obtain ⟨hplain, he⟩ := h.tidy k v hfind hwatched
    exact .inl ⟨⟨hplain, hwatched⟩, he⟩

theorem Followed.ne_base {k : Str} (h : Followed p k) : k ≠ Key.entryKey p.id p.baseDn := by
  rintro rfl
  rw [Followed, not_watched_base] at h
  cases h.2

theorem Converging.base {rows : List (Str × Value)} (h : Converging p whitelist s)
    (hstage : s.stage = .ranged rows) (v : Option Value) :
    Converging p whitelist
      { s with
        stage := .loading ((v.map fun v => (Key.entryKey p.id p.baseDn, v)).toList ++ rows) } := by
  refine ⟨h.tidy, h.stream, h.single, h.named, ?_⟩
  cases h.settled with
  | idle hidle _ => cases hstage.symm.trans hidle
  | subscribed hsub _ _ => cases hstage.symm.trans hsub
  | scanned hrows htidy hsettles =>
    rw [hstage] at hrows
    cases hrows
    cases v with
    | none => exact .scanned rfl htidy hsettles
    | some v =>
      refine .scanned rfl (List.forall_mem_cons.mpr ⟨.inr rfl, htidy⟩) ?_
      refine hsettles.congr (fun k hk => ?_) fun _ _ => rfl
      exact replay_congr (Function.update_of_ne hk.ne_base _ _)

theorem Converging.ready (h : Converging p whitelist s) (hstage : s.stage = .loading []) :
    Converging p whitelist
      { s with aggregate := s.aggregate.markReady p.id, stage := .watching } := by
  refine ⟨h.tidy, h.stream, h.single, h.named, ?_⟩
  cases h.settled with
  | idle hidle _ => cases hstage.symm.trans hidle
  | subscribed hsub _ _ => cases hstage.symm.trans hsub
  | scanned hrows htidy hsettles =>
    rw [hstage] at hrows
    cases hrows
    exact .scanned rfl htidy hsettles

theorem Converging.watching (h : Converging p whitelist s) (hstage : s.stage = .watching) :
    Settles (Followed p) (pending whitelist s.stream) (heldAt p s.aggregate)
      (stored whitelist s.kv) := by
  cases h.settled with
  | idle hidle _ => cases hstage.symm.trans hidle
  | subscribed hsub _ _ => cases hstage.symm.trans hsub
  | scanned hrows _ hsettles =>
    rw [hstage] at hrows
    cases hrows
    exact hsettles

theorem Converging.deliver {change : Watch.EntryChange} {rest : Watch.Stream}
    (h : Converging p whitelist s) (hstage : s.stage = .watching)
    (hnext : Watch.nextEntryChange s.stream = .ok (some change, rest)) :
    Converging p whitelist
      { s with aggregate := applyChange p whitelist change s.aggregate, stream := rest } := by
  obtain ⟨hpending, ⟨resp, hresp, e, he, ev, hev, hchange⟩, hsuffix⟩ :=
    nextEntryChange_cases whitelist h.single hnext
  have hfollowed : Followed p (entryChange whitelist change).1 :=
    followed_of_change h.stream hresp he hev hchange
  refine ⟨h.tidy, fun r hr => h.stream r (hsuffix.subset hr),
    fun r hr => h.single r (hsuffix.subset hr), h.named.applyChange hfollowed.1 (.inl hfollowed),
    ?_⟩
  have hrows : s.stage.rows? = some [] := by
    rw [hstage]
    rfl
  have hsettles := h.watching hstage
  rw [hpending] at hsettles
  exact .scanned hrows nofun
    (Settles.congr hsettles (fun k hk => heldAt_applyChange hfollowed.1 hk.1) fun _ _ => rfl)

section Base

variable (hbase : p.baseDn.Wf) (hplain : p.baseDn.Plain)

include hbase hplain

theorem plainKey_base : PlainKey p.id (Key.entryKey p.id p.baseDn) := ⟨_, hbase, hplain, rfl⟩

theorem Converging.load {row : Str × Value} {rows : List (Str × Value)}
    (h : Converging p whitelist s) (hstage : s.stage = .loading (row :: rows)) :
    Converging p whitelist
      { s with aggregate := applyRow p whitelist row s.aggregate, stage := .loading rows } := by
  cases h.settled with
  | idle hidle _ => cases hstage.symm.trans hidle
  | subscribed hsub _ _ => cases hstage.symm.trans hsub
  | scanned hrows htidy hsettles =>
    rw [hstage] at hrows
    cases hrows
    obtain ⟨hrow, htidy⟩ := List.forall_mem_cons.mp htidy
    have hread : PlainKey p.id row.1 ∧ Readable p row.1 := by
      obtain ⟨hfollowed, -⟩ | heq := hrow
      · exact ⟨hfollowed.1, .inl hfollowed⟩
      · exact ⟨heq ▸ plainKey_base hbase hplain, .inr heq⟩
    refine ⟨h.tidy, h.stream, h.single, h.named.applyRow hread.1 hread.2, ?_⟩
    refine .scanned rfl htidy (hsettles.congr (fun k hk => replay_congr ?_) fun _ _ => rfl)
    obtain ⟨hfollowed, he⟩ | heq := hrow
    · exact heldAt_applyRow hfollowed.1 he hk.1
    · have hne : k ≠ row.1 := fun hk' => hk.ne_base (hk'.trans heq)
      exact (heldAt_applyRow_of_ne hread.1 hk.1 hne).trans (Function.update_of_ne hne _ _).symm

theorem Converging.step (h : Converging p whitelist s) (hact : Orderly p act)
    (hstep : Step p whitelist s act s') : Converging p whitelist s' := by
  cases hstep with
  | write hevents => exact h.write hact.1 hact.2 hevents
  | subscribe hstage => exact h.subscribe hstage
  | range hstage => exact h.range hstage
  | base hstage => exact h.base hstage _
  | load hstage => exact h.load hbase hplain hstage
  | ready hstage => exact h.ready hstage
  | deliver hstage hnext => exact h.deliver hstage hnext
  | disconnect => exact hact.elim

end Base

theorem Converging.mirrors (h : Converging p whitelist s) (hne : p.baseDn.isEmpty = false)
    (hstage : s.stage = .watching) (hdrained : Drained s.stream) : Mirrors p whitelist s := by
  have hsettles := h.watching hstage
  rw [pending_of_drained hdrained] at hsettles
  have hwatched : ∀ d : Dn, d.isStrictDescendantOf p.baseDn = true →
      watched p (Key.entryKey p.id d) = true := by
    intro d hd
    rw [isPrefix_of_watched, Key.subtreePrefix_isPrefix_entryKey]
    exact Key.isPrefix_of_isStrictDescendantOf (by simpa [Dn.isEmpty] using hne) hd
  have hshown : ∀ d : Dn, d.Wf → d.Plain → watched p (Key.entryKey p.id d) = true →
      s.aggregate.get d.folded = stored whitelist s.kv (Key.entryKey p.id d) := by
    intro d hw hp hd
    rw [← heldAt_of_plain hw hp]
    exact hsettles _ ⟨⟨d, hw, hp, rfl⟩, hd⟩
  refine ⟨?_, ?_, ?_⟩
  · intro text dn e hfind hdesc
    obtain ⟨rfl, d, hw, hp, rfl, -⟩ := h.named text dn e hfind
    have hkey : Key.entryKey p.id d.folded = Key.entryKey p.id d :=
      Key.entryKey_congr d.folded_same
    have hget := hshown d hw hp (hkey ▸ hwatched _ hdesc)
    rw [Aggregate.get, hfind, Option.map_some, stored] at hget
    obtain ⟨v, hv, hkept⟩ := Option.bind_eq_some_iff.mp hget.symm
    cases v with
    | text t => cases hkept
    | entry e₀ =>
      cases hkept
      exact ⟨e₀, by rw [hkey, hv], rfl⟩
  · intro d hw hp hdesc e₀ hfind
    have hget := hshown d hw hp (hwatched d hdesc)
    rw [Aggregate.get, stored, hfind] at hget
    obtain ⟨⟨dn, e⟩, hheld, heq⟩ := Option.map_eq_some_iff.mp hget
    obtain ⟨htext, d', hw', hp', rfl, -⟩ := h.named _ _ _ hheld
    have hpath := (hp'.display_inj hp hw' hw).mp htext.symm
    refine ⟨d'.folded, ?_, ?_⟩
    · exact d'.folded_same.trans (hp'.legible.path_inj hw' hw hp.legible hpath)
    · rw [← htext, hheld]
      exact congrArg (fun e => some (d'.folded, e)) heq
  · intro text text' dn dn' e e' hfind hfind' hsame
    obtain ⟨rfl, d, hw, hp, rfl, -⟩ := h.named text dn e hfind
    obtain ⟨rfl, d', hw', hp', rfl, -⟩ := h.named text' dn' e' hfind'
    rw [hp.display_inj hp' hw hw']
    exact Key.path_congr (d.folded_same.symm.trans (hsame.trans d'.folded_same))

/-- Whatever is written while one session subscribes, scans and follows, once
nothing is left to deliver the replica mirrors what is stored below the
base. -/
theorem mirrors_when_drained (p : Partition) (whitelist : List Str) {kv : OrderedMap Str Value}
    {t : System} {steps : List (System × Action)} (hbase : p.baseDn.Wf) (hplain : p.baseDn.Plain)
    (hne : p.baseDn.isEmpty = false) (hkv : TidyStore p kv)
    (hrun : Run (Step p whitelist) (System.fresh kv) steps t)
    (hsteps : ∀ x ∈ steps, Orderly p x.2) : ∀ x ∈ Run.states steps t,
      x.stage = .watching → Drained x.stream → Mirrors p whitelist x := by
  intro x hx hstage hdrained
  have hconverging : Converging p whitelist x :=
    Run.invariant_of_guard (fun _ _ _ h hact hstep => h.step hbase hplain hact hstep) hrun
      (converging_fresh hkv) hsteps x hx
  exact hconverging.mirrors hne hstage hdrained

section Samples

open Tracked (corp corpPerson withMail)

def aliceKey : Str := Key.entryKey corp.id (corpPerson "Alice")

def alicePut : TxnOp Str Value := .put aliceKey (.entry (withMail "alice@corp"))

def aliceEvent : Watch.Response := ⟨[event (aliceKey, some (.entry (withMail "alice@corp")))]⟩

theorem plainKey_alice : PlainKey corp.id aliceKey :=
  ⟨corpPerson "Alice", Dn.parse_wf (s := "cn=Alice,dc=corp") rfl, by decide +kernel, rfl⟩

theorem mirrors_alice :
    ∃ steps t, Run (Step corp ["mail"]) (System.fresh .empty) steps t ∧
      (t.aggregate.get (corpPerson "alice")).isSome = true ∧ Mirrors corp ["mail"] t := by
  have hwrite : Step corp ["mail"] { System.fresh .empty with stage := .subscribed }
    (.write [alicePut] [aliceEvent]) _ := .write rfl
  have hrun := Run.cons (.subscribe rfl) (Run.cons hwrite (Run.cons (.range rfl)
    (Run.cons (.base rfl) (Run.cons (.load rfl) (Run.cons (.ready rfl)
      (Run.cons (.deliver rfl rfl) (.nil _)))))))
  have hempty : TidyStore corp .empty := fun _ _ hfind => by cases hfind
  have hput : TidyOp corp alicePut := fun _ => ⟨plainKey_alice, _, rfl⟩
  refine ⟨_, _, hrun, rfl, mirrors_when_drained corp ["mail"] (Dn.parse_wf (s := "dc=corp") rfl)
    (by decide +kernel) rfl hempty hrun ?_ _ (Run.last_mem _ _) rfl nofun⟩
  simp only [List.forall_mem_cons]
  exact ⟨trivial, ⟨by simpa using hput, by simp [aliceEvent]⟩, trivial, trivial, trivial, trivial,
    trivial, nofun⟩

def rootContext : Partition := { corp with baseDn := .root }

def rootAlice : Dn := ⟨[⟨[⟨"cn", "Alice"⟩]⟩]⟩

def rootSystem : System :=
  System.fresh (OrderedMap.empty.insert (Key.entryKey rootContext.id rootAlice)
    (.entry (Entry.new.set "cn" ["Alice"])))

/-- No key lies below that of the empty name, so nothing is replicated. -/
theorem not_mirrors_root :
    ∃ steps t, Run (Step rootContext ["cn"]) rootSystem steps t ∧
      t.stage = .watching ∧ Drained t.stream ∧ rootContext.baseDn.Plain ∧ rootAlice.Plain ∧
      rootAlice.isStrictDescendantOf rootContext.baseDn = true ∧
      ¬ Mirrors rootContext ["cn"] t := by
  have hfirst : Step rootContext ["cn"] rootSystem .subscribe _ := .subscribe rfl
  have hrun := Run.cons hfirst
    (Run.cons (.range rfl) (Run.cons (.base rfl) (Run.cons (.ready rfl) (.nil _))))
  refine ⟨_, _, hrun, rfl, nofun, by decide +kernel, by decide +kernel, by decide +kernel, ?_⟩
  intro h
  obtain ⟨dn, -, hfind⟩ := h.complete rootAlice (Dn.parse_wf (s := "cn=Alice") rfl)
    (by decide +kernel) (by decide +kernel) _ rfl
  cases hfind

end Samples

end IronDirectory.Gc
