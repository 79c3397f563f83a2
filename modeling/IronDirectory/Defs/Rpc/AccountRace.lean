import IronDirectory.Defs.Rpc.AccountName
import IronDirectory.Defs.Storage.EntryLaws
import IronDirectory.Defs.Storage.RidProtocol

/-! Any number of calls that create one account, in any number of processes.
Each draws a RID and then sends one create-only transaction, and either answer
may be lost on the way back. -/

namespace IronDirectory.Rpc.Samr.Race

open Base Naming Storage

inductive Phase
  | allocating
  | sent (rid : Nat)
  | answered (rid : Nat) (created : Bool)

/-- One call, with the settings of the process that serves it.  When it has
replied its transaction may still be on the way. -/
structure Call where
  domainSid : Sid
  spec : IndexSpec
  phase : Phase
  reply : Option Bytes

def Call.entry (call : Call) (name : Str) (rid : Nat) : Entry :=
  accountEntry call.domainSid name (UInt32.ofNat rid)

/-- Calls are known by their places, which are those of their draws from the
pool; `committed` and `received` record whose transaction was carried out and
who heard of its own. -/
structure State where
  pool : RidPool.Pool
  calls : List Call
  committed : List Nat
  received : List Nat

namespace State

def fresh (pid : PartitionId) (c : Cluster) : State :=
  ⟨⟨c, [c.kv.find? (RidPool.poolKey pid)], [], [], []⟩, [], [], []⟩

def setCall (s : State) (i : Nat) (call : Call) : State := { s with calls := s.calls.set i call }

def setCluster (s : State) (c : Cluster) : State :=
  { s with pool := { s.pool with cluster := c } }

end State

def answer (rid : Nat) : Bool → Bytes
  | true => createUser2Response (UInt32.ofNat rid) NtStatus.success
  | false => createUser2Response 0 NtStatus.userExists

def failure : Bytes := createUser2Response 0 NtStatus.internalDbError

def OwnKey (pid : PartitionId) (dn : Dn) (k : Str) : Prop :=
  k = Key.entryKey pid dn ∨ ∃ attr v, k = Key.indexKey pid attr v dn

inductive Action
  | start
  | draw (i : Nat)
  | send (i : Nat)
  | execute (i : Nat)
  | receive (i : Nat)
  | giveUp (i : Nat)
  | other

def Action.caller : Action → Option Nat
  | .start => none
  | .draw i => some i
  | .send i => some i
  | .execute i => some i
  | .receive i => some i
  | .giveUp i => some i
  | .other => none

inductive Step (pid : PartitionId) (dn : Dn) (name : Str) : State → Action → State → Prop
  | start {s : State} {pool : RidPool.Pool} (domainSid : Sid) (spec : IndexSpec) :
    RidPool.Step pid s.pool .start pool →
    Step pid dn name s .start
      { s with pool := pool, calls := s.calls ++ [⟨domainSid, spec, .allocating, none⟩] }
  | draw {s : State} {pool : RidPool.Pool} {a : RidPool.Action} {i : Nat} :
    a = .read i ∨ a = .execute i ∨ a = .receive i → RidPool.Step pid s.pool a pool →
    Step pid dn name s (.draw i) { s with pool := pool }
  | noRid {s : State} {pool : RidPool.Pool} {i : Nat} {call : Call} :
    s.calls[i]? = some call → call.phase = .allocating → call.reply = none →
    RidPool.Step pid s.pool (.giveUp i) pool →
    Step pid dn name s (.giveUp i)
      { s.setCall i { call with reply := some failure } with pool := pool }
  | send {s : State} {i rid : Nat} {call : Call} :
    s.calls[i]? = some call → call.phase = .allocating → call.reply = none →
    (i, rid) ∈ s.pool.returned →
    Step pid dn name s (.send i) (s.setCall i { call with phase := .sent rid })
  | commit {s : State} {i rid : Nat} {call : Call} {c : Cluster} :
    s.calls[i]? = some call → call.phase = .sent rid →
    Index.createEntryIndexed s.pool.cluster pid dn (call.entry name rid) call.spec =
      .ok (true, c) →
    Step pid dn name s (.execute i)
      { (s.setCall i { call with phase := .answered rid true }).setCluster c with
        committed := i :: s.committed }
  | refuse {s : State} {i rid : Nat} {call : Call} {c : Cluster} :
    s.calls[i]? = some call → call.phase = .sent rid →
    Index.createEntryIndexed s.pool.cluster pid dn (call.entry name rid) call.spec =
      .ok (false, c) →
    Step pid dn name s (.execute i)
      ((s.setCall i { call with phase := .answered rid false }).setCluster c)
  | receive {s : State} {i rid : Nat} {created : Bool} {call : Call} :
    s.calls[i]? = some call → call.phase = .answered rid created → call.reply = none →
    Step pid dn name s (.receive i)
      { s.setCall i { call with reply := some (answer rid created) } with
        received := i :: s.received }
  -- The transaction failed, or its outcome was lost.
  | lose {s : State} {i : Nat} {call : Call} :
    s.calls[i]? = some call → call.phase ≠ .allocating → call.reply = none →
    Step pid dn name s (.giveUp i) (s.setCall i { call with reply := some failure })
  -- Others may do anything with the cluster but write this name.
  | other {s : State} {c : Cluster} :
    (∀ k, OwnKey pid dn k → c.kv.find? k = s.pool.cluster.kv.find? k) →
    Step pid dn name s .other { s with
      pool := { s.pool with
        cluster := c
        past := c.kv.find? (RidPool.poolKey pid) :: s.pool.past } }

def EndsIn (e : Entry) (rid : UInt32) : Prop :=
  ∃ sid : Sid, e.get objectSidAttr = some [encodeBinaryAttr sid.encode] ∧ sid.rid = some rid ∧
    (sid.subAuthorities.length < 256 → objectRid e = some rid)

theorem endsIn_accountEntry (domainSid : Sid) (name : Str) (rid : UInt32) :
    EndsIn (accountEntry domainSid name rid) rid := by
  have hget : (accountEntry domainSid name rid).get objectSidAttr =
      some [encodeBinaryAttr (domainSid.withSubAuthority rid).encode] := by
    rw [accountEntry, Entry.get_set, if_neg (by decide), Entry.get_set, if_pos (by decide)]
  have hrid : (domainSid.withSubAuthority rid).rid = some rid := by
    simp [Sid.rid, Sid.withSubAuthority]
  refine ⟨_, hget, hrid, fun hlen => ?_⟩
  simp only [objectRid, Entry.objectSid, hget, decodeBinaryAttr, encodeBinaryAttr,
    Base64.decode_encode, Option.bind_eq_bind, Option.bind_some, List.head?_cons, Option.getD_some,
    Sid.decode_encode hlen]
  exact hrid

theorem run_of_allocateRid {pid : PartitionId} {s : State} {rid : Nat} {c : Cluster} (dn : Dn)
    (name : Str) (domainSid : Sid) (spec : IndexSpec)
    (hpast : s.pool.cluster.kv.find? (RidPool.poolKey pid) ∈ s.pool.past)
    (hlen : s.pool.callers.length = s.calls.length)
    (h : RidPool.allocateRid s.pool.cluster pid = .ok (rid, c)) :
    ∃ steps t, Run (Step pid dn name) s steps t ∧ t.pool.cluster = c ∧
      t.calls = s.calls ++ [⟨domainSid, spec, .sent rid, none⟩] := by
  obtain ⟨compare, hcur, hswap⟩ := RidPool.allocateRid_eq_ok h
  refine ⟨_, _, Run.cons (.start domainSid spec .start)
    (Run.cons (.draw (i := s.calls.length) (.inl rfl) (.read ?_ hpast hcur))
      (Run.cons (.draw (i := s.calls.length) (.inr (.inl rfl))
          (.commit (?_ : _ = some (⟨.sent rid compare, true⟩ : RidPool.Caller)) hswap))
        (Run.cons (.draw (i := s.calls.length) (.inr (.inr rfl)) (.deliver (n := rid) ?_))
          (Run.cons (.send (i := s.calls.length)
              (?_ : _ = some (⟨domainSid, spec, .allocating, none⟩ : Call)) rfl rfl
              (?_ : (s.calls.length, rid) ∈ _)) (.nil _))))), rfl, ?_⟩
  · simp [← hlen]
  · simp [RidPool.Pool.setCaller, ← hlen]
  · simp [RidPool.Pool.setCaller, ← hlen]
  · simp
  · simp [RidPool.Pool.setCaller]
  · simp [State.setCall]

/-- A call that nobody interrupts is a run of the protocol. -/
theorem run_of_createAccount {state : SamrState} {domainSid : Sid} {name : Str} {dn : Dn}
    {p : Partition} {s : State} (hp : state.store.registry.resolve dn = some p)
    (hcluster : s.pool.cluster = state.store.clusters p.cluster)
    (hpast : s.pool.cluster.kv.find? (RidPool.poolKey p.id) ∈ s.pool.past)
    (hlen : s.pool.callers.length = s.calls.length) :
    ∃ steps t call, Run (Step p.id dn name) s steps t ∧
      t.pool.cluster = (createAccount state domainSid name dn).store.clusters p.cluster ∧
      t.calls[s.calls.length]? = some call ∧
      call.reply = (createAccount state domainSid name dn).response := by
  cases halloc : state.store.allocateRid dn with
  | error e =>
    simp only [createAccount, halloc]
    refine ⟨_, _, ⟨domainSid, state.indexSpec, .allocating, some failure⟩,
      Run.cons (.start domainSid state.indexSpec .start)
        (Run.cons (.noRid (i := s.calls.length)
          (?_ : _ = some (⟨domainSid, state.indexSpec, .allocating, none⟩ : Call)) rfl rfl
          (.giveUp (?_ : _ = some (⟨.reading, true⟩ : RidPool.Caller)))) (.nil _)), hcluster, ?_, rfl⟩
    · simp
    · simp [← hlen]
    · simp [State.setCall]
  | ok r =>
    obtain ⟨rid, store⟩ := r
    obtain ⟨c, hrid, rfl⟩ := Store.allocateRid_of_resolve hp halloc
    obtain ⟨steps, t, hrun, rfl, hcalls⟩ :=
      run_of_allocateRid dn name domainSid state.indexSpec hpast hlen (hcluster ▸ hrid)
    have hcall : t.calls[s.calls.length]? =
        some ⟨domainSid, state.indexSpec, .sent rid, none⟩ := by
      simp [hcalls]
    have hlt := (List.getElem?_eq_some_iff.mp hcall).1
    simp only [createAccount, halloc, Store.createEntry_of_resolve (s := state.store.setCluster _ _) hp,
      Store.setCluster_self]
    cases hcreate : Index.createEntryIndexed t.pool.cluster p.id dn
        (accountEntry domainSid name (UInt32.ofNat rid)) state.indexSpec with
    | error e =>
      exact ⟨_, _, _, hrun.append (Run.cons (.lose hcall nofun rfl) (.nil _)),
        (Store.setCluster_self _ _ _).symm, List.getElem?_set_self hlt, rfl⟩
    | ok r =>
      obtain ⟨created, c⟩ := r
      have hanswered : ∀ b : Bool, (t.calls.set s.calls.length
          ⟨domainSid, state.indexSpec, .answered rid b, none⟩)[s.calls.length]? =
            some ⟨domainSid, state.indexSpec, .answered rid b, none⟩ := fun b =>
        List.getElem?_set_self hlt
      have hlt' := fun b => (List.getElem?_eq_some_iff.mp (hanswered b)).1
      cases created with
      | true =>
        exact ⟨_, _, _, hrun.append (Run.cons (.commit hcall rfl hcreate)
          (Run.cons (.receive (hanswered true) rfl rfl) (.nil _))),
          (Store.setCluster_self _ _ _).symm, List.getElem?_set_self (hlt' true), rfl⟩
      | false =>
        exact ⟨_, _, _, hrun.append (Run.cons (.refuse hcall rfl hcreate)
          (Run.cons (.receive (hanswered false) rfl rfl) (.nil _))),
          (Store.setCluster_self _ _ _).symm, List.getElem?_set_self (hlt' false), rfl⟩

theorem run_of_createAccount_corp : ∃ steps t call,
    Run (Step Tracked.corp.id (Tracked.corpPerson "WS1") "WS1") (.fresh Tracked.corp.id .empty)
        steps t ∧
      t.pool.cluster = (createAccount corpState corpSid "WS1"
        (Tracked.corpPerson "WS1")).store.clusters Tracked.corp.cluster ∧
      t.calls[0]? = some call ∧
      call.reply = (createAccount corpState corpSid "WS1" (Tracked.corpPerson "WS1")).response :=
  run_of_createAccount (by decide +kernel) rfl List.mem_cons_self rfl

/-- One call at most created the account, what is stored is what that call
built, and every reply says what happened to the transaction of its own
call. -/
structure CreateOnly (pid : PartitionId) (dn : Dn) (name : Str) (c₀ : Cluster) (s : State) :
    Prop where
  once : s.committed.length ≤ 1
  stored : ∀ i ∈ s.committed, ∃ call rid, s.calls[i]? = some call ∧
    call.phase = .answered rid true ∧ ∀ k, OwnKey pid dn k → s.pool.cluster.kv.find? k =
      (TxnOp.applyAll (Index.createOps pid dn (call.entry name rid) call.spec) c₀.kv).find? k
  success : ∀ (i : Nat) call reply, s.calls[i]? = some call → call.reply = some reply →
    (statusOf reply = NtStatus.success ↔ i ∈ s.committed ∧ i ∈ s.received)
  rid : ∀ (i : Nat) call reply, s.calls[i]? = some call → call.reply = some reply →
    statusOf reply = NtStatus.success → ∃ e,
      s.pool.cluster.kv.find? (Key.entryKey pid dn) = some (.entry e) ∧ EndsIn e (ridField reply)
  refused : ∀ (i : Nat) call reply, s.calls[i]? = some call → call.reply = some reply →
    i ∉ s.committed →
      statusOf reply = NtStatus.userExists ∨ statusOf reply = NtStatus.internalDbError

structure Call.Tracked (committed received : List Nat) (i : Nat) (call : Call) : Prop where
  carried : i ∈ committed ↔ ∃ rid, call.phase = .answered rid true
  heard : i ∈ received → ∃ rid created, call.phase = .answered rid created ∧
    call.reply = some (answer rid created)
  lost : ∀ reply, call.reply = some reply → i ∉ received → reply = failure

inductive Held (pid : PartitionId) (dn : Dn) (name : Str) (c₀ : Cluster) (s : State) : Prop
  | free : s.committed = [] →
    (∀ k, OwnKey pid dn k → s.pool.cluster.kv.find? k = c₀.kv.find? k) → Held pid dn name c₀ s
  | taken (i : Nat) (call : Call) (rid : Nat) : s.committed = [i] → s.calls[i]? = some call →
    call.phase = .answered rid true →
    (∀ k, OwnKey pid dn k → s.pool.cluster.kv.find? k =
      (TxnOp.applyAll (Index.createOps pid dn (call.entry name rid) call.spec) c₀.kv).find? k) →
    Held pid dn name c₀ s

structure Sound (pid : PartitionId) (dn : Dn) (name : Str) (c₀ : Cluster) (s : State) : Prop where
  known : ∀ i, i ∈ s.committed ∨ i ∈ s.received → i < s.calls.length
  calls : ∀ (i : Nat) call, s.calls[i]? = some call → call.Tracked s.committed s.received i
  held : Held pid dn name c₀ s

variable {pid : PartitionId} {dn : Dn} {name : Str} {c₀ : Cluster} {s s' : State} {a : Action}

theorem sound_fresh : Sound pid dn name c₀ (State.fresh pid c₀) where
  known := by simp [State.fresh]
  calls := by simp [State.fresh]
  held := .free rfl fun _ _ => rfl

theorem find?_createOps_entryKey (e : Entry) (spec : IndexSpec) :
    (TxnOp.applyAll (Index.createOps pid dn e spec) c₀.kv).find? (Key.entryKey pid dn) =
      some (.entry e) := by
  rw [Index.createOps_eq, Index.find?_putOps, if_neg, if_pos rfl]
  intro hk
  obtain ⟨attr, v, hk⟩ := Index.exists_of_mem_keysOf hk
  exact Key.entryKey_ne_indexKey _ _ _ _ _ _ hk

theorem status_ne : NtStatus.userExists ≠ NtStatus.success ∧
    NtStatus.internalDbError ≠ NtStatus.success := by
  decide

theorem Sound.createOnly (h : Sound pid dn name c₀ s) : CreateOnly pid dn name c₀ s := by
  have hsuccess : ∀ (i : Nat) call reply, s.calls[i]? = some call → call.reply = some reply →
      (statusOf reply = NtStatus.success ↔ i ∈ s.committed ∧ i ∈ s.received) := by
    intro i call reply hi hreply
    have ht := h.calls i call hi
    by_cases hr : i ∈ s.received
    · obtain ⟨rid, created, hphase, hanswer⟩ := ht.heard hr
      rw [hanswer] at hreply
      cases hreply
      cases created with
      | true => simp [answer, hr, ht.carried, hphase]
      | false => simp [answer, ht.carried, hphase, status_ne.1]
    · rw [ht.lost reply hreply hr]
      simp [failure, hr, status_ne.2]
  have hstored : ∀ i ∈ s.committed, ∃ call rid, s.calls[i]? = some call ∧
      call.phase = .answered rid true ∧ ∀ k, OwnKey pid dn k → s.pool.cluster.kv.find? k =
        (TxnOp.applyAll (Index.createOps pid dn (call.entry name rid) call.spec) c₀.kv).find? k := by
    intro i hi
    cases h.held with
    | free hnone _ => simp [hnone] at hi
    | taken j call rid hone hcall hphase hkeys =>
      rw [hone, List.mem_singleton] at hi
      exact ⟨call, rid, hi ▸ hcall, hphase, hkeys⟩
  refine ⟨?_, hstored, hsuccess, ?_, ?_⟩
  · cases h.held with
    | free hnone _ => simp [hnone]
    | taken j call rid hone _ _ _ => simp [hone]
  · intro i call reply hi hreply hstatus
    obtain ⟨hc, hr⟩ := (hsuccess i call reply hi hreply).mp hstatus
    obtain ⟨call', rid, hi', hphase, hkeys⟩ := hstored i hc
    cases hi.symm.trans hi'
    obtain ⟨rid', created, hphase', hanswer⟩ := (h.calls i call hi).heard hr
    cases hphase.symm.trans hphase'
    cases hreply.symm.trans hanswer
    refine ⟨_, (hkeys _ (.inl rfl)).trans (find?_createOps_entryKey _ _), ?_⟩
    rw [answer, ridField_createUser2Response]
    exact endsIn_accountEntry _ _ _
  · intro i call reply hi hreply hc
    have ht := h.calls i call hi
    by_cases hr : i ∈ s.received
    · obtain ⟨rid, created, hphase, hanswer⟩ := ht.heard hr
      cases hreply.symm.trans hanswer
      cases created with
      | true => exact absurd (ht.carried.mpr ⟨rid, hphase⟩) hc
      | false => exact .inl (statusOf_createUser2Response _ _)
    · rw [ht.lost reply hreply hr]
      exact .inr (statusOf_createUser2Response _ _)

theorem OwnKey.ne_poolKey {k : Str} (h : OwnKey pid dn k) (q : PartitionId) :
    k ≠ RidPool.poolKey q := by
  obtain rfl | ⟨attr, v, rfl⟩ := h
  · exact (RidPool.poolKey_ne_entryKey q pid dn).symm
  · exact (RidPool.poolKey_ne_indexKey q pid attr v dn).symm

theorem Sound.setPool (h : Sound pid dn name c₀ s) {pool : RidPool.Pool}
    (hkeys : ∀ k, OwnKey pid dn k → pool.cluster.kv.find? k = s.pool.cluster.kv.find? k) :
    Sound pid dn name c₀ { s with pool := pool } where
  known := h.known
  calls := h.calls
  held := by
    cases h.held with
    | free hnone hfree => exact .free hnone fun k hk => (hkeys k hk).trans (hfree k hk)
    | taken i call rid hone hcall hphase htaken =>
      exact .taken i call rid hone hcall hphase fun k hk => (hkeys k hk).trans (htaken k hk)

theorem Sound.setCall (h : Sound pid dn name c₀ s) {i : Nat} {call call' : Call}
    {received : List Nat} (hi : s.calls[i]? = some call)
    (hsettings : call'.domainSid = call.domainSid ∧ call'.spec = call.spec)
    (hphase : ∀ rid, call.phase = .answered rid true → call'.phase = .answered rid true)
    (hreceived : ∀ j, j ≠ i → (j ∈ received ↔ j ∈ s.received))
    (htracked : call'.Tracked s.committed received i) :
    Sound pid dn name c₀ { s.setCall i call' with received := received } where
  known := by
    intro j hj
    simp only [State.setCall, List.length_set]
    by_cases hji : j = i
    · exact hji ▸ (List.getElem?_eq_some_iff.mp hi).1
    · exact h.known j (hj.imp_right (hreceived j hji).mp)
  calls := by
    intro j c hj
    obtain ⟨rfl, rfl⟩ | ⟨hji, hj⟩ := Lists.getElem?_set_cases hj
    · exact htracked
    · have ht := h.calls j c hj
      exact ⟨ht.carried, fun hr => ht.heard ((hreceived j hji).mp hr),
        fun reply hreply hr => ht.lost reply hreply fun hr' => hr ((hreceived j hji).mpr hr')⟩
  held := by
    cases h.held with
    | free hnone hfree => exact .free hnone hfree
    | taken j c rid hone hj hc htaken =>
      by_cases hji : j = i
      · subst hji
        cases hi.symm.trans hj
        refine .taken j call' rid hone ?_ (hphase rid hc) ?_
        · exact List.getElem?_set_self (List.getElem?_eq_some_iff.mp hi).1
        · rw [Call.entry, hsettings.1, hsettings.2]
          exact htaken
      · exact .taken j c rid hone ((List.getElem?_set_ne (Ne.symm hji)).trans hj) hc htaken

theorem Sound.start (h : Sound pid dn name c₀ s) (domainSid : Sid) (spec : IndexSpec) :
    Sound pid dn name c₀
      { s with calls := s.calls ++ [⟨domainSid, spec, .allocating, none⟩] } where
  known := fun i hi => by
    rw [List.length_append]
    exact Nat.lt_add_right _ (h.known i hi)
  calls := by
    intro i call hi
    obtain ⟨rfl, rfl⟩ | hi := Lists.getElem?_concat_cases hi
    · have hnew : ∀ j, j ∈ s.committed ∨ j ∈ s.received → j ≠ s.calls.length := fun j hj =>
        Nat.ne_of_lt (h.known j hj)
      refine ⟨iff_of_false (fun hj => hnew _ (.inl hj) rfl) (by simp), ?_, by simp⟩
      exact fun hj => absurd rfl (hnew _ (.inr hj))
    · exact h.calls i call hi
  held := by
    cases h.held with
    | free hnone hfree => exact .free hnone hfree
    | taken i call rid hone hi hc htaken =>
      refine .taken i call rid hone ?_ hc htaken
      rw [List.getElem?_append_left (List.getElem?_eq_some_iff.mp hi).1, hi]

theorem Sound.commit (h : Sound pid dn name c₀ s) {i rid : Nat} {call : Call} {c : Cluster}
    (hi : s.calls[i]? = some call) (hphase : call.phase = .sent rid)
    (hcreate : Index.createEntryIndexed s.pool.cluster pid dn (call.entry name rid) call.spec =
      .ok (true, c)) :
    Sound pid dn name c₀
      { (s.setCall i { call with phase := .answered rid true }).setCluster c with
        committed := i :: s.committed } := by
  obtain ⟨hfalse, -⟩ | ⟨-, habsent, hw⟩ := Index.createEntryIndexed_eq_ok hcreate
  · cases hfalse
  have hlt := (List.getElem?_eq_some_iff.mp hi).1
  cases h.held with
  | taken j call' rid' _ _ _ htaken =>
    rw [htaken _ (.inl rfl), find?_createOps_entryKey] at habsent
    cases habsent
  | free hnone hfree =>
    have ht := h.calls i call hi
    have hnot : i ∉ s.received := by
      intro hr
      obtain ⟨_, _, hphase', -⟩ := ht.heard hr
      cases hphase.symm.trans hphase'
    refine ⟨?_, ?_, .taken i { call with phase := .answered rid true } rid ?_ ?_ rfl ?_⟩
    · intro j hj
      simp only [State.setCluster, State.setCall, List.length_set]
      simp only [hnone, List.mem_singleton] at hj
      obtain rfl | hj := hj
      · exact hlt
      · exact h.known j (.inr hj)
    · intro j c' hj
      obtain ⟨rfl, rfl⟩ | ⟨hji, hj⟩ := Lists.getElem?_set_cases hj
      · exact ⟨by simp, fun hr => absurd hr hnot, ht.lost⟩
      · have ht' := h.calls j c' hj
        refine ⟨?_, ht'.heard, ht'.lost⟩
        rw [← ht'.carried, List.mem_cons]
        simp [hji]
    · simp [hnone]
    · exact List.getElem?_set_self hlt
    · intro k hk
      rw [Index.createOps_eq, Index.find?_putOps, ← hfree k hk]
      exact hw.writes k

theorem Sound.step (h : Sound pid dn name c₀ s) (hstep : Step pid dn name s a s') :
    Sound pid dn name c₀ s' := by
  cases hstep with
  | start domainSid spec hpool =>
    exact (h.setPool fun k hk => hpool.frame nofun (hk.ne_poolKey pid)).start domainSid spec
  | draw ha hpool =>
    refine h.setPool fun k hk => hpool.frame ?_ (hk.ne_poolKey pid)
    rintro rfl
    simp at ha
  | @noRid _ i call hi hphase hreply hpool =>
    have ht := h.calls _ _ hi
    have hset : Sound pid dn name c₀ (s.setCall i { call with reply := some failure }) := by
      refine h.setCall hi ⟨rfl, rfl⟩ (fun _ => id) (fun _ _ => .rfl) ⟨ht.carried, ?_, ?_⟩
      · intro hr
        obtain ⟨_, _, hphase', -⟩ := ht.heard hr
        cases hphase.symm.trans hphase'
      · intro reply hreply' _
        cases hreply'
        rfl
    exact hset.setPool fun k hk => hpool.frame nofun (hk.ne_poolKey pid)
  | send hi hphase hreply _ =>
    have ht := h.calls _ _ hi
    refine h.setCall hi ⟨rfl, rfl⟩ (by simp [hphase]) (fun _ _ => .rfl) ⟨?_, ?_, ?_⟩
    · rw [ht.carried, hphase]
      simp
    · intro hr
      obtain ⟨_, _, hphase', -⟩ := ht.heard hr
      cases hphase.symm.trans hphase'
    · simp [hreply]
  | commit hi hphase hcreate => exact h.commit hi hphase hcreate
  | refuse hi hphase hcreate =>
    have ht := h.calls _ _ hi
    obtain ⟨-, rfl⟩ | ⟨htrue, -⟩ := Index.createEntryIndexed_eq_ok hcreate
    · refine h.setCall hi ⟨rfl, rfl⟩ (by simp [hphase]) (fun _ _ => .rfl) ⟨?_, ?_, ht.lost⟩
      · rw [ht.carried, hphase]
        simp
      · intro hr
        obtain ⟨_, _, hphase', -⟩ := ht.heard hr
        cases hphase.symm.trans hphase'
    · cases htrue
  | receive hi hphase hreply =>
    have ht := h.calls _ _ hi
    refine h.setCall hi ⟨rfl, rfl⟩ (fun _ => id) (fun j hj => by simp [hj]) ⟨ht.carried, ?_, ?_⟩
    · exact fun _ => ⟨_, _, hphase, rfl⟩
    · intro _ _ hr
      exact absurd List.mem_cons_self hr
  | lose hi hphase hreply =>
    have ht := h.calls _ _ hi
    refine h.setCall hi ⟨rfl, rfl⟩ (fun _ => id) (fun _ _ => .rfl) ⟨ht.carried, ?_, ?_⟩
    · intro hr
      obtain ⟨_, _, _, hreply'⟩ := ht.heard hr
      cases hreply.symm.trans hreply'
    · intro reply hreply' _
      cases hreply'
      rfl
  | other hkeys => exact h.setPool hkeys

theorem Step.frame (h : Step pid dn name s a s') {i : Nat} (ha : a.caller = some i)
    (hi : i ∉ s'.committed) {k : Str} (hk : k ≠ RidPool.poolKey pid) :
    s'.pool.cluster.kv.find? k = s.pool.cluster.kv.find? k := by
  cases h with
  | start => cases ha
  | draw hor hpool =>
    refine hpool.frame ?_ hk
    rintro rfl
    simp at hor
  | noRid _ _ _ hpool => exact hpool.frame nofun hk
  | send => rfl
  | commit =>
    cases ha
    exact absurd List.mem_cons_self hi
  | refuse _ _ hcreate =>
    obtain ⟨-, rfl⟩ | ⟨htrue, -⟩ := Index.createEntryIndexed_eq_ok hcreate
    · rfl
    · cases htrue
  | receive => rfl
  | lose => rfl
  | other => cases ha

/-- Whatever the interleaving and whoever loses an answer, one call at most
creates the account, and no other touches the tree or an index. -/
theorem create_only (pid : PartitionId) (dn : Dn) (name : Str) {c₀ : Cluster} {t : State}
    {steps : List (State × Action)}
    (hrun : Run (Step pid dn name) (State.fresh pid c₀) steps t) :
    (∀ x ∈ Run.states steps t, CreateOnly pid dn name c₀ x) ∧
      ∀ x a y i k, Step pid dn name x a y → a.caller = some i → i ∉ y.committed →
        k ≠ RidPool.poolKey pid → y.pool.cluster.kv.find? k = x.pool.cluster.kv.find? k := by
  refine ⟨fun x hx => ?_, fun x a y i k hstep ha hi hk => hstep.frame ha hi hk⟩
  have hsound : Sound pid dn name c₀ x :=
    Run.invariant (fun _ _ _ h hstep => h.step hstep) hrun sound_fresh x hx
  exact hsound.createOnly

section Samples

open RidPool (corpId)

def workstation : Dn := ⟨[⟨[⟨"cn", "WS1"⟩]⟩, ⟨[⟨"dc", "corp"⟩]⟩]⟩

theorem create_only_in_race :
    ∃ steps t, Run (Step corpId workstation "WS1") (State.fresh corpId .empty) steps t ∧
      t.committed = [1] ∧ t.received = [0] ∧ CreateOnly corpId workstation "WS1" .empty t := by
  have hrun := Run.cons (show Step corpId workstation "WS1" (State.fresh corpId .empty) .start _ from
      .start corpSid ⟨[], nofun⟩ .start)
    (Run.cons (.start corpSid ⟨[], nofun⟩ .start)
      (Run.cons (.draw (i := 0) (.inl rfl) (.read (v := none) rfl List.mem_cons_self rfl))
        (Run.cons (.draw (i := 0) (.inr (.inl rfl)) (.commit rfl rfl))
          (Run.cons (.draw (i := 0) (.inr (.inr rfl)) (.deliver rfl))
            (Run.cons (.draw (i := 1) (.inl rfl) (.read rfl List.mem_cons_self rfl))
              (Run.cons (.draw (i := 1) (.inr (.inl rfl)) (.commit rfl rfl))
                (Run.cons (.draw (i := 1) (.inr (.inr rfl)) (.deliver rfl))
                  (Run.cons (.send (i := 0) rfl rfl rfl List.mem_cons_self)
                    (Run.cons (.send (i := 1) rfl rfl rfl (List.mem_cons_of_mem _ List.mem_cons_self))
                      (Run.cons (.commit (i := 1) rfl rfl rfl)
                        (Run.cons (.lose (i := 1) rfl nofun rfl)
                          (Run.cons (.refuse (i := 0) rfl rfl rfl)
                            (Run.cons (.receive (i := 0) rfl rfl rfl) (.nil _))))))))))))))
  exact ⟨_, _, hrun, rfl, rfl, (create_only corpId workstation "WS1" hrun).1 _ (Run.last_mem _ _)⟩

end Samples

end IronDirectory.Rpc.Samr.Race
