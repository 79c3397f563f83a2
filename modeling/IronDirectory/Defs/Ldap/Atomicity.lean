import IronDirectory.Defs.Ldap.StoredPasswords

namespace IronDirectory.Storage

open Base Naming

/-- Which calls to the store fail, and with what: reads by their key,
transactions by what they would have written. -/
structure Faults where
  read : ClusterRef → Str → Option Str
  write : ClusterRef → List (TxnOp Str Value) → Option Str

namespace Store

def under (s : Store) (f : Faults) : Store :=
  { s with clusters := fun ref =>
      { s.clusters ref with readFailure := f.read ref, writeFailure := f.write ref } }

def faults (s : Store) : Faults :=
  ⟨fun ref => (s.clusters ref).readFailure, fun ref => (s.clusters ref).writeFailure⟩

@[simp] theorem under_faults (s : Store) : s.under s.faults = s := rfl

@[simp] theorem kv_under (s : Store) (f : Faults) (ref : ClusterRef) :
    ((s.under f).clusters ref).kv = (s.clusters ref).kv := rfl

@[simp] theorem registry_under (s : Store) (f : Faults) : (s.under f).registry = s.registry := rfl

@[simp] theorem entryAt_under (s : Store) (f : Faults) (dn : Dn) :
    (s.under f).entryAt dn = s.entryAt dn := rfl

def SameRows (s s' : Store) : Prop :=
  ∀ ref pid, ∀ k ∈ KeyKind.tree.keys pid ∪ KeyKind.index.keys pid,
    (s'.clusters ref).kv.find? k = (s.clusters ref).kv.find? k

theorem SameRows.of_kv {s s' : Store}
    (h : ∀ ref, (s'.clusters ref).kv = (s.clusters ref).kv) : SameRows s s' :=
  fun ref _ _ _ => by rw [h ref]

theorem SameRows.of_allocateRid {s s' : Store} {dn : Dn} {rid : Nat}
    (h : s.allocateRid dn = .ok (rid, s')) : SameRows s s' := by
  intro ref pid k hk
  refine find?_allocateRid h ?_ ref
  rintro q rfl
  cases hk with
  | inl htree =>
    obtain ⟨d, heq⟩ := htree
    exact RidPool.poolKey_ne_entryKey q pid d heq
  | inr hindex =>
    obtain ⟨attr, v, d, heq⟩ := hindex
    exact RidPool.poolKey_ne_indexKey q pid attr v d heq

theorem SameRows.refl (s : Store) : SameRows s s := fun _ _ _ _ => rfl

theorem SameRows.trans {s s' s'' : Store} (h : SameRows s s') (h' : SameRows s' s'') :
    SameRows s s'' := fun ref pid k hk => (h' ref pid k hk).trans (h ref pid k hk)

def SameEntriesBut (dn : Dn) (s s' : Store) : Prop :=
  ∀ ref pid, ∀ k ∈ KeyKind.tree.keys pid,
    (∀ p, s.registry.resolve dn = some p → (ref, k) ≠ (p.cluster, Key.entryKey p.id dn)) →
      (s'.clusters ref).kv.find? k = (s.clusters ref).kv.find? k

theorem Wrote.sameEntriesBut {spec : IndexSpec} {s s' : Store} {dn : Dn} {new : Option Entry}
    (h : Wrote spec s dn new s') : SameEntriesBut dn s s' := by
  obtain ⟨p, c, dropped, hp, rfl, hw⟩ := h
  rintro ref pid k ⟨d, rfl⟩ hother
  by_cases href : ref = p.cluster
  · subst href
    rw [setCluster_self]
    refine find?_of_writes hw fun hkey => ?_
    exact hother p hp (by rw [hkey])
  · rw [setCluster_of_ne s c href]

theorem under_faults_setCluster (s : Store) (ref : ClusterRef) (kv : OrderedMap Str Value) :
    (s.setCluster ref { s.clusters ref with kv := kv }).under s.faults =
      s.setCluster ref { s.clusters ref with kv := kv } := by
  rw [under, faults, setCluster]
  congr 1
  funext ref'
  by_cases href : ref' = ref
  · subst href
    simp
  · simp [href]

end Store

end IronDirectory.Storage

namespace IronDirectory.Ldap

open Base Naming Storage Outcome

section Changes

variable (p : Provider)

inductive StoredAs (attr : Str) (values : List Str) : List Str → Prop
  | plain : isUserPassword attr = false → StoredAs attr values values
  | hashed {hashes : List Str} : isUserPassword attr = true →
    List.Forall₂ (fun v h => ∃ draw, hashPassword p draw v.toUtf8 = .ok h) values hashes →
      StoredAs attr values hashes

def ChangeOperation.on (op : ChangeOperation) (old stored : List Str) : List Str :=
  match op with
  | .add => Entry.addAll old stored
  | .delete => if stored = [] then [] else old.filter fun v => !stored.contains v
  | .replace => stored

structure Change.Effect (c : Change) (stored : List Str) (before after : Str → List Str) : Prop where
  given : if c.operation = .delete then stored = c.modification.values
    else StoredAs p c.modification.type c.modification.values stored
  values : ∀ attr, after attr =
    if attr.asciiLower = c.modification.type.asciiLower then c.operation.on (before attr) stored
    else before attr

inductive Applied : List Change → (Str → List Str) → (Str → List Str) → Prop
  | nil (m) : Applied [] m m
  | cons {c cs stored m m' m''} : c.Effect p stored m m' → Applied cs m' m'' →
    Applied (c :: cs) m m''

variable {p}

theorem storedAs_nil (p : Provider) (attr : Str) : StoredAs p attr [] [] := by
  cases hattr : isUserPassword attr with
  | false => exact .plain hattr
  | true => exact .hashed hattr .nil

theorem storedAs_hashPasswordValues {attr : Str} (hattr : isUserPassword attr = true)
    {draw : Nat → Nat} {values hashes : List Str}
    (h : hashPasswordValues p draw values = .ok hashes) : StoredAs p attr values hashes := by
  rw [hashPasswordValues] at h
  split at h
  · refine .hashed hattr ?_
    have hindexed := mapM_eq_ok.mp h
    rw [← List.zipIdx_map_fst 0 values, List.forall₂_map_left_iff]
    exact hindexed.imp fun v hash hv => ⟨_, hv⟩
  · nomatch h

end Changes

namespace Service

variable {svc : Service}

theorem effect_applyChange {draw : Nat → Nat} {e e' : Entry} {c : Change}
    (h : svc.applyChange draw e c = .ok e') :
    ∃ stored, c.Effect svc.toProvider stored e.valuesOf e'.valuesOf := by
  obtain ⟨operation, modification⟩ := c
  cases operation with
  | add =>
    simp only [applyChange] at h
    split at h
    · next hattr =>
      obtain ⟨hashes, hh, h⟩ := bind_eq_ok.mp h
      cases h
      exact ⟨hashes, storedAs_hashPasswordValues hattr hh, Entry.valuesOf_addValues e _ _⟩
    · next hattr =>
      cases h
      exact ⟨_, .plain (Bool.eq_false_iff.mpr hattr), Entry.valuesOf_addValues e _ _⟩
  | delete =>
    cases h
    exact ⟨_, rfl, Entry.valuesOf_deleteValues e _ _⟩
  | replace =>
    simp only [applyChange] at h
    split at h
    · next hempty =>
      cases h
      refine ⟨[], ?_, fun b => by simp [Entry.valuesOf_deleteValues, ChangeOperation.on]⟩
      rw [List.isEmpty_iff] at hempty
      simp only [hempty]
      exact storedAs_nil svc.toProvider _
    · split at h
      · next hattr =>
        obtain ⟨hashes, hh, h⟩ := bind_eq_ok.mp h
        cases h
        exact ⟨hashes, storedAs_hashPasswordValues hattr hh, Entry.valuesOf_set e _ _⟩
      · next hattr =>
        cases h
        exact ⟨_, .plain (Bool.eq_false_iff.mpr hattr), Entry.valuesOf_set e _ _⟩

theorem applied_applyChanges {draw : Nat → Nat → Nat} {e e' : Entry} {changes : List Change}
    {k : Nat} (h : (changes.zipIdx k).foldlM (fun e c => svc.applyChange (draw c.2) e c.1) e =
      .ok e') : Applied svc.toProvider changes e.valuesOf e'.valuesOf := by
  induction changes generalizing e k with
  | nil =>
    cases h
    exact .nil _
  | cons c changes ih =>
    rw [List.zipIdx_cons, List.foldlM_cons] at h
    obtain ⟨e₁, h₁, h⟩ := bind_eq_ok.mp h
    obtain ⟨stored, heffect⟩ := effect_applyChange h₁
    exact .cons heffect (ih h)

/-- An update whose preparation and whose write meet the given failures.  Either
phase may read a key that the other reads too. -/
def handleUnder (svc : Service) (planning writing : Faults) (store : Store) :
    UpdateRequest → Update
  | .add draw req =>
    match svc.planAdd draw (store.under planning) req with
    | .error result => .refused result store
    | .ok (dn, entry, store) => svc.put (store.under writing) dn entry
  | .delete entry => svc.handleDelete (store.under writing) entry
  | .modify draw req =>
    match svc.planModify draw (store.under planning) req with
    | .error result => .refused result store
    | .ok (dn, entry) => svc.put (store.under writing) dn entry
  | .modDn req =>
    match svc.planModDn (store.under planning) req with
    | .error result => .refused result store
    | .ok m => svc.move (store.under writing) m
  | .passwordModify draw value boundIdentity =>
    match svc.planPasswordModify draw (store.under planning) value boundIdentity with
    | .error result => .refused result store
    | .ok (dn, entry) =>
      match (store.under writing).putEntry dn entry svc.indexSpec with
      | .ok store' => ⟨.success, store', [(dn, some entry)]⟩
      | .error e => .refused (.operationsError (e.display svc.platform.debugStr)) store

theorem handleUnder_faults (svc : Service) (store : Store) (req : UpdateRequest) :
    svc.handleUnder store.faults store.faults store req = svc.handle store req := by
  cases req with
  | add draw req =>
    simp only [handleUnder, handle, handleAdd, Store.under_faults]
    cases hplan : svc.planAdd draw store req with
    | error result => rfl
    | ok planned =>
      obtain ⟨dn, e, store'⟩ := planned
      obtain ⟨e₀, -, -, -, -, hstamp⟩ := planAdd_eq_ok.mp hplan
      simp only
      obtain ⟨-, rfl⟩ | ⟨rid, -, -, hrid, -⟩ := stampSecurityPrincipal_eq_ok hstamp
      · rw [Store.under_faults]
      · obtain ⟨p, -, rfl⟩ := Store.allocateRid_eq_ok hrid
        rw [Store.under_faults_setCluster]
  | delete | modify | modDn | passwordModify => rfl

theorem sameRows_of_put {planned store : Store} (hrows : Store.SameRows store planned) (f : Faults)
    {dn : Dn} {entry : Entry} (hfails : (svc.put (planned.under f) dn entry).result.Fails) :
    Store.SameRows store (svc.put (planned.under f) dn entry).store := by
  obtain ⟨store', -, hput⟩ | ⟨result, -, -, hput⟩ := put_cases svc (planned.under f) dn entry
  · rw [hput] at hfails
    exact absurd hfails LdapResult.not_fails_success
  · rw [hput]
    exact hrows.trans (.of_kv fun _ => rfl)

theorem sameRows_of_stamp {store store' : Store} {topology : Option PartitionRegistry} {dn : Dn}
    {e stamped : Entry}
    (h : Security.stampSecurityPrincipal store topology dn e = .ok (stamped, store')) :
    Store.SameRows store store' := by
  obtain ⟨-, rfl⟩ | ⟨rid, -, -, hrid, -⟩ := stampSecurityPrincipal_eq_ok h
  · exact .refl _
  · exact .of_allocateRid hrid

theorem modified_of_success {planning writing : Faults} {store : Store}
    {draw : Nat → Nat → Nat} {req : ModifyRequest}
    (hok : (svc.handleUnder planning writing store (.modify draw req)).result.resultCode =
      .success) :
    ∃ dn before after, Dn.parse req.object = .ok dn ∧ store.entryAt dn = some (.entry before) ∧
      Applied svc.toProvider req.changes before.valuesOf after.valuesOf ∧
      (svc.handleUnder planning writing store (.modify draw req)).store.entryAt dn =
        some (.entry after) ∧
      Store.SameEntriesBut dn store
        (svc.handleUnder planning writing store (.modify draw req)).store := by
  have herrors := planModify_errors svc draw (store.under planning) req
  simp only [handleUnder] at hok ⊢
  cases hplan : svc.planModify draw (store.under planning) req with
  | error result =>
    rw [hplan] at hok
    exact absurd hok (herrors result hplan)
  | ok planned =>
    obtain ⟨dn, after⟩ := planned
    rw [hplan] at hok
    simp only at hok ⊢
    obtain ⟨before, hdn, -, hbefore, happly, -⟩ := planModify_eq_ok.mp hplan
    obtain ⟨store', hput, heq⟩ | ⟨result, -, hfails, heq⟩ :=
      put_cases svc (store.under writing) dn after
    · have hwrote := Store.wrote_putEntry hput
      rw [heq]
      exact ⟨dn, before, after, hdn, Store.getEntry_eq_ok hbefore, applied_applyChanges happly,
        hwrote.entryAt_self, hwrote.sameEntriesBut⟩
    · rw [heq] at hok
      exact absurd hok hfails

/-- Whatever calls to the store fail, an update by one transaction that does not
succeed leaves all entries and index rows, and a modification that does leaves
the entry with its changes applied in order and every other entry alone. -/
theorem handleUnder_atomic (svc : Service) (planning writing : Faults) (store : Store)
    (req : UpdateRequest) (hreq : ∀ r, req ≠ .modDn r) :
    ((svc.handleUnder planning writing store req).result.Fails →
        Store.SameRows store (svc.handleUnder planning writing store req).store) ∧
      ∀ draw mod, req = .modify draw mod →
        (svc.handleUnder planning writing store req).result.resultCode = .success →
          ∃ dn before after, Dn.parse mod.object = .ok dn ∧
            store.entryAt dn = some (.entry before) ∧
            Applied svc.toProvider mod.changes before.valuesOf after.valuesOf ∧
            (svc.handleUnder planning writing store req).store.entryAt dn = some (.entry after) ∧
            Store.SameEntriesBut dn store (svc.handleUnder planning writing store req).store := by
  constructor
  · intro hfails
    cases req with
    | add draw req =>
      simp only [handleUnder] at hfails ⊢
      split
      · exact .refl _
      · next dn e store' hplan =>
        rw [hplan] at hfails
        obtain ⟨e₀, -, -, -, -, hstamp⟩ := planAdd_eq_ok.mp hplan
        exact sameRows_of_put ((Store.SameRows.of_kv fun _ => rfl).trans (sameRows_of_stamp hstamp))
          writing hfails
    | delete entry =>
      simp only [handleUnder, handleDelete] at hfails ⊢
      split
      · exact .of_kv fun _ => rfl
      · split
        · next hdn _ _ hdel =>
          rw [hdn] at hfails
          simp only [hdel] at hfails
          exact absurd hfails LdapResult.not_fails_success
        · exact .of_kv fun _ => rfl
    | modify draw req =>
      simp only [handleUnder] at hfails ⊢
      split
      · exact .refl _
      · next dn e hplan =>
        rw [hplan] at hfails
        exact sameRows_of_put (.refl _) writing hfails
    | modDn req => exact absurd rfl (hreq req)
    | passwordModify draw value bound =>
      simp only [handleUnder] at hfails ⊢
      split
      · exact .refl _
      · next dn e hplan =>
        rw [hplan] at hfails
        simp only at hfails
        split
        · next hput =>
          rw [hput] at hfails
          exact absurd hfails LdapResult.not_fails_success
        · exact .refl _
  · rintro draw mod rfl hok
    exact modified_of_success hok

section Samples

open Tracked (corp corpPerson withMail)

def reachable : Faults := ⟨fun _ _ => none, fun _ _ => none⟩

def unreachable : Faults := ⟨fun _ _ => some "unavailable", fun _ _ => some "unavailable"⟩

def mailOfAlice : Store :=
  corpStore (OrderedMap.empty.insert (Key.entryKey corp.id (corpPerson "Alice"))
    (.entry (withMail "a@corp")))

def replaceMail : UpdateRequest :=
  .modify (fun _ _ => 0) ⟨"cn=Alice,dc=corp", [⟨.replace, ⟨"mail", [Str.toUtf8 "b@corp"]⟩⟩]⟩

theorem handleUnder_replaceMail :
    Store.SameRows mailOfAlice
        (corpService.handleUnder reachable unreachable mailOfAlice replaceMail).store ∧
      ∃ dn before after, Dn.parse "cn=Alice,dc=corp" = .ok dn ∧
        mailOfAlice.entryAt dn = some (.entry before) ∧
        Applied corpService.toProvider [⟨.replace, ⟨"mail", [Str.toUtf8 "b@corp"]⟩⟩]
          before.valuesOf after.valuesOf ∧
        (corpService.handleUnder reachable reachable mailOfAlice replaceMail).store.entryAt dn =
          some (.entry after) ∧
        Store.SameEntriesBut dn mailOfAlice
          (corpService.handleUnder reachable reachable mailOfAlice replaceMail).store := by
  have hfails : (corpService.handleUnder reachable unreachable mailOfAlice
      replaceMail).result.resultCode ≠ .success := by decide +kernel
  constructor
  · exact (handleUnder_atomic corpService reachable unreachable mailOfAlice replaceMail nofun).1
      hfails
  · exact (handleUnder_atomic corpService reachable reachable mailOfAlice replaceMail nofun).2 _ _
      rfl (by decide +kernel)

end Samples

end Service

end IronDirectory.Ldap
