import IronDirectory.Defs.Ldap.Update
import IronDirectory.Defs.Storage.Trace

namespace IronDirectory.Ldap

open Base Crypto Kerberos Naming Storage Outcome

def LdapResult.Fails (r : LdapResult) : Prop := r.resultCode ≠ .success

@[simp] theorem LdapResult.fails_new {code : ResultCode} {text : Str} :
    (LdapResult.new code text).Fails ↔ code ≠ .success := Iff.rfl

theorem LdapResult.fails_referTo (url : Str) (dn : Dn) : (LdapResult.referTo url dn).Fails :=
  nofun

theorem LdapResult.not_fails_success : ¬ LdapResult.success.Fails := fun h => h rfl

theorem passwordErrorResult_fails (e : CryptoError) : (passwordErrorResult e).Fails := by
  cases e <;> exact nofun

theorem Referrals.fails_of_proactiveReferral {refs : Referrals} {dn : Dn} {r : LdapResult}
    (h : refs.proactiveReferral dn = some r) : r.Fails := by
  simp only [proactiveReferral, bind, Option.bind_eq_some_iff] at h
  obtain ⟨topology, -, ownId, -, owner, -, h⟩ := h
  split at h
  · cases h
  · obtain ⟨url, -, h⟩ := Option.bind_eq_some_iff.mp h
    cases h
    exact LdapResult.fails_referTo url dn

namespace Service

variable {svc : Service} {store store' : Store} {dn : Dn} {entry : Entry}

theorem storeErrorResult_fails (svc : Service) (e : StoreError) (dn : Dn) :
    (svc.storeErrorResult e dn).Fails := by
  unfold storeErrorResult Referrals.storeErrorResult
  split
  · exact LdapResult.fails_referTo _ _
  · exact nofun

theorem target_eq_ok {s : Str} :
    svc.target s = .ok dn ↔ Dn.parse s = .ok dn ∧ ¬ svc.referrals.Foreign dn := by
  rw [target, bind_eq_ok]
  simp only [mapError_eq_ok]
  constructor
  · rintro ⟨d, hd, h⟩
    split at h
    · cases h
    · cases h
      exact ⟨hd, Referrals.proactiveReferral_eq_none.mp ‹_›⟩
  · rintro ⟨hd, hown⟩
    exact ⟨dn, hd, by rw [Referrals.proactiveReferral_eq_none.mpr hown]; rfl⟩

theorem target_errors (svc : Service) (s : Str) : Errors LdapResult.Fails (svc.target s) := by
  refine errors_bind (errors_mapError fun _ => nofun) fun dn => ?_
  split
  · exact errors_error (Referrals.fails_of_proactiveReferral ‹_›)
  · exact errors_pure _

theorem existing_eq_ok : svc.existing store dn = .ok entry ↔ store.getEntry dn = .ok (some entry) := by
  unfold existing
  split <;> simp_all

theorem existing_errors (svc : Service) (store : Store) (dn : Dn) :
    Errors LdapResult.Fails (svc.existing store dn) := by
  unfold existing
  split
  · exact errors_ok _
  · exact errors_error nofun
  · exact errors_error (storeErrorResult_fails svc _ dn)

theorem validated_errors (entry : Entry) : Errors LdapResult.Fails (validated entry) :=
  errors_mapError fun _ => nofun

theorem stampSecurityPrincipal_eq_ok {topology : Option PartitionRegistry} {stamped : Entry}
    (h : Security.stampSecurityPrincipal store topology dn entry = .ok (stamped, store')) :
    (stamped = entry ∧ store' = store) ∨
      ∃ rid sidText descriptor, store.allocateRid dn = .ok (rid, store') ∧
        stamped = (entry.set objectSidAttr [sidText]).set ntSecurityDescriptorAttr [descriptor] := by
  unfold Security.stampSecurityPrincipal at h
  split at h
  · split at h
    · cases h
      exact .inl ⟨rfl, rfl⟩
    · obtain ⟨⟨rid, s⟩, hrid, h⟩ := bind_eq_ok.mp h
      cases h
      exact .inr ⟨rid, _, _, hrid, rfl⟩
  · cases h
    exact .inl ⟨rfl, rfl⟩

theorem trace_of_stamp {topology : Option PartitionRegistry} {stamped : Entry} {spec : IndexSpec}
    (h : Security.stampSecurityPrincipal store topology dn entry = .ok (stamped, store')) :
    Store.Trace spec store [] store' := by
  obtain ⟨-, rfl⟩ | ⟨rid, -, -, hrid, -⟩ := stampSecurityPrincipal_eq_ok h
  · exact .nil _
  · exact .allocate hrid (.nil _)

theorem planAdd_eq_ok {draw : Nat → Nat → Nat} {req : AddRequest} {e : Entry} :
    svc.planAdd draw store req = .ok (dn, e, store') ↔
      ∃ e₀, Dn.parse req.entry = .ok dn ∧ ¬ svc.referrals.Foreign dn ∧
        entryFromAttributes svc.toProvider draw req.attributes = .ok e₀ ∧
        Schema.validate e₀ = .ok () ∧
        Security.stampSecurityPrincipal store svc.referrals.topology dn e₀ = .ok (e, store') := by
  simp only [planAdd, bind_eq_ok, target_eq_ok, mapError_eq_ok, validated, pure_eq_ok,
    Prod.mk.injEq]
  constructor
  · rintro ⟨d, ⟨hd, hown⟩, e₀, he, _, hv, ⟨e', s'⟩, hs, rfl, rfl, rfl⟩
    exact ⟨e₀, hd, hown, he, hv, hs⟩
  · rintro ⟨e₀, hd, hown, he, hv, hs⟩
    exact ⟨dn, ⟨hd, hown⟩, e₀, he, (), hv, (e, store'), hs, rfl, rfl, rfl⟩

theorem planAdd_errors (svc : Service) (draw : Nat → Nat → Nat) (store : Store)
    (req : AddRequest) : Errors LdapResult.Fails (svc.planAdd draw store req) :=
  errors_bind (target_errors svc _) fun dn =>
    errors_bind (errors_mapError passwordErrorResult_fails) fun e =>
      errors_bind (validated_errors e) fun _ =>
        errors_bind (errors_mapError fun err => storeErrorResult_fails svc err dn) fun _ =>
          errors_pure _

theorem planModify_eq_ok {draw : Nat → Nat → Nat} {req : ModifyRequest} {e : Entry} :
    svc.planModify draw store req = .ok (dn, e) ↔
      ∃ e₀, Dn.parse req.object = .ok dn ∧ ¬ svc.referrals.Foreign dn ∧
        store.getEntry dn = .ok (some e₀) ∧ svc.applyChanges draw e₀ req.changes = .ok e ∧
        Schema.validate e = .ok () := by
  simp only [planModify, bind_eq_ok, target_eq_ok, mapError_eq_ok, validated, pure_eq_ok,
    existing_eq_ok, Prod.mk.injEq]
  constructor
  · rintro ⟨d, ⟨hd, hown⟩, e₀, he, e', hc, _, hv, rfl, rfl⟩
    exact ⟨e₀, hd, hown, he, hc, hv⟩
  · rintro ⟨e₀, hd, hown, he, hc, hv⟩
    exact ⟨dn, ⟨hd, hown⟩, e₀, he, e, hc, (), hv, rfl, rfl⟩

theorem newRdn_eq_ok {req : ModifyDnRequest} {rdn : Rdn} :
    newRdn req = .ok rdn ↔ Dn.parse req.newRdn = .ok ⟨[rdn]⟩ := by
  unfold newRdn
  split
  case h_1 r h => simp [h]
  case h_2 h => simpa using h rdn

theorem leaf_eq_ok :
    svc.leaf store dn = .ok () ↔ ∃ rows, store.scanSubtree dn = .ok rows ∧ rows.length ≤ 1 := by
  unfold leaf
  split
  · split <;> simp_all
  · simp_all

theorem planModDn_eq_ok {req : ModifyDnRequest} {m : Move} :
    svc.planModDn store req = .ok m ↔
      ∃ oldRdn rdn parent e, Dn.parse req.entry = .ok m.oldDn ∧
        m.oldDn.rdns.head? = some oldRdn ∧ ¬ svc.referrals.Foreign m.oldDn ∧
        Dn.parse req.newRdn = .ok ⟨[rdn]⟩ ∧ newParent req m.oldDn = .ok parent ∧
        Dn.parse (newDnStr req parent) = .ok m.newDn ∧
        (∃ rows, store.scanSubtree m.oldDn = .ok rows ∧ rows.length ≤ 1) ∧
        store.getEntry m.oldDn = .ok (some e) ∧ m.entry = renamed req rdn oldRdn e := by
  simp only [planModDn, bind_eq_ok, mapError_eq_ok, require_eq_ok]
  constructor
  · rintro ⟨d, hd, oldRdn, hrdn, h⟩
    split at h
    · cases h
    · next hown =>
      simp only [bind_eq_ok, mapError_eq_ok, newRdn_eq_ok, existing_eq_ok, pure_eq_ok] at h
      obtain ⟨rdn, hnew, parent, hpar, newDn, hdn, _, hleaf, e, he, rfl⟩ := h
      exact ⟨oldRdn, rdn, parent, e, hd, hrdn, Referrals.proactiveReferral_eq_none.mp hown, hnew,
        hpar, hdn, leaf_eq_ok.mp hleaf, he, rfl⟩
  · rintro ⟨oldRdn, rdn, parent, e, hd, hrdn, hown, hnew, hpar, hdn, hleaf, he, hm⟩
    refine ⟨m.oldDn, hd, oldRdn, hrdn, ?_⟩
    rw [Referrals.proactiveReferral_eq_none.mpr hown]
    simp only [bind_eq_ok, mapError_eq_ok, newRdn_eq_ok, existing_eq_ok, pure_eq_ok]
    refine ⟨rdn, hnew, parent, hpar, m.newDn, hdn, (), leaf_eq_ok.mpr hleaf, e, he, ?_⟩
    rw [← hm]

theorem planModify_errors (svc : Service) (draw : Nat → Nat → Nat) (store : Store)
    (req : ModifyRequest) : Errors LdapResult.Fails (svc.planModify draw store req) :=
  errors_bind (target_errors svc _) fun dn =>
    errors_bind (existing_errors svc store dn) fun _ =>
      errors_bind (errors_mapError passwordErrorResult_fails) fun e =>
        errors_bind (validated_errors e) fun _ => errors_pure _

theorem newRdn_errors (req : ModifyDnRequest) : Errors LdapResult.Fails (newRdn req) := by
  unfold newRdn
  split
  · exact errors_ok _
  · exact errors_error nofun

theorem newParent_errors (req : ModifyDnRequest) (oldDn : Dn) :
    Errors LdapResult.Fails (newParent req oldDn) := by
  unfold newParent
  split
  · exact errors_mapError fun _ => nofun
  · exact errors_ok _

theorem leaf_errors (svc : Service) (store : Store) (dn : Dn) :
    Errors LdapResult.Fails (svc.leaf store dn) := by
  unfold leaf
  split
  · split
    · exact errors_error nofun
    · exact errors_ok _
  · exact errors_error (storeErrorResult_fails svc _ dn)

theorem planModDn_errors (svc : Service) (store : Store) (req : ModifyDnRequest) :
    Errors LdapResult.Fails (svc.planModDn store req) := by
  refine errors_bind (errors_mapError fun _ => nofun) fun oldDn =>
    errors_bind (errors_require nofun) fun oldRdn => ?_
  split
  · exact errors_error (Referrals.fails_of_proactiveReferral ‹_›)
  · exact errors_bind (newRdn_errors req) fun rdn =>
      errors_bind (newParent_errors req oldDn) fun parent =>
        errors_bind (errors_mapError fun _ => nofun) fun newDn =>
          errors_bind (leaf_errors svc store oldDn) fun _ =>
            errors_bind (existing_errors svc store oldDn) fun _ => errors_pure _

theorem passwordEntry_eq_ok :
    svc.passwordEntry store dn = .ok entry ↔ store.getEntry dn = .ok (some entry) := by
  unfold passwordEntry
  split <;> simp_all

theorem passwordEntry_errors (svc : Service) (store : Store) (dn : Dn) :
    Errors LdapResult.Fails (svc.passwordEntry store dn) := by
  unfold passwordEntry
  split
  · exact errors_ok _
  · exact errors_error nofun
  · exact errors_error nofun

theorem planPasswordModify_eq_ok {draw : Nat} {value : Option Bytes} {bound : Option Str}
    {e : Entry} :
    svc.planPasswordModify draw store value bound = .ok (dn, e) ↔
      ∃ bytes req newPasswd identity realm e₀ fqn, svc.fips = true ∧ value = some bytes ∧
        svc.decodePasswdModify bytes = .ok req ∧ req.newPasswd = some newPasswd ∧
        (req.userIdentity.map Utf8.fromUtf8Lossy).or bound = some identity ∧
        resolvePasswordTarget identity = .ok dn ∧
        store.registry.iter.findSome? Partition.realm = some realm ∧
        store.getEntry dn = .ok (some e₀) ∧ principalFqnFor e₀ realm = some fqn ∧
        Kdc.setPassword svc.platform.cipher draw e₀ fqn newPasswd = .ok e := by
  simp only [planPasswordModify, bind_eq_ok, mapError_eq_ok, require_eq_ok, ensure_eq_ok,
    pure_eq_ok, passwordEntry_eq_ok, Prod.mk.injEq]
  constructor
  · rintro ⟨_, hfips, bytes, hb, req, hreq, newPasswd, hnew, identity, hid, d, hd, realm, hr, e₀,
      he, fqn, hf, e', hset, rfl, rfl⟩
    exact ⟨bytes, req, newPasswd, identity, realm, e₀, fqn, hfips, hb, hreq, hnew, hid, hd, hr, he,
      hf, hset⟩
  · rintro ⟨bytes, req, newPasswd, identity, realm, e₀, fqn, hfips, hb, hreq, hnew, hid, hd, hr, he,
      hf, hset⟩
    exact ⟨(), hfips, bytes, hb, req, hreq, newPasswd, hnew, identity, hid, dn, hd, realm, hr, e₀,
      he, fqn, hf, e, hset, rfl, rfl⟩

theorem planPasswordModify_errors (svc : Service) (draw : Nat) (store : Store)
    (value : Option Bytes) (bound : Option Str) :
    Errors LdapResult.Fails (svc.planPasswordModify draw store value bound) :=
  errors_bind (errors_ensure (by simp [LdapResult.unwilling])) fun _ =>
    errors_bind (errors_require (by simp)) fun bytes =>
    errors_bind (errors_mapError fun _ => by simp) fun req =>
    errors_bind (errors_require (by simp [LdapResult.unwilling])) fun newPasswd =>
    errors_bind (errors_require (by simp)) fun identity =>
    errors_bind (errors_mapError fun _ => by simp) fun dn =>
    errors_bind (errors_require (by simp)) fun realm =>
    errors_bind (passwordEntry_errors svc store dn) fun e =>
    errors_bind (errors_require (by simp [LdapResult.unwilling])) fun fqn =>
    errors_bind (errors_mapError fun _ => by simp [LdapResult.operationsError]) fun _ =>
    errors_pure _

theorem put_cases (svc : Service) (store : Store) (dn : Dn) (entry : Entry) :
    (∃ store', store.putEntry dn entry svc.indexSpec = .ok store' ∧
      svc.put store dn entry = ⟨.success, store', [(dn, some entry)]⟩) ∨
    ∃ result, ¬ store.Accepts dn entry svc.indexSpec ∧ result.Fails ∧
      svc.put store dn entry = .refused result store := by
  rw [← Store.putEntry_ok_iff]
  unfold put
  split
  · next h => exact .inl ⟨_, h, rfl⟩
  · next e h => exact .inr ⟨_, by simp [h], storeErrorResult_fails svc e dn, rfl⟩

theorem eq_of_mem_put_writes {w : Dn × Option Entry} (h : w ∈ (svc.put store dn entry).writes) :
    w = (dn, some entry) := by
  obtain ⟨store', -, hput⟩ | ⟨result, -, -, hput⟩ := put_cases svc store dn entry
  · rw [hput] at h
    exact List.mem_singleton.mp h
  · rw [hput] at h
    cases h

theorem mem_move_writes {m : Move} {w : Dn × Option Entry} (h : w ∈ (svc.move store m).writes) :
    w = (m.newDn, some m.entry) ∨ w = (m.oldDn, none) := by
  unfold move at h
  split at h
  · cases h
  · split at h
    · exact .inl (List.mem_singleton.mp h)
    · split at h
      · simpa using h
      · exact .inl (List.mem_singleton.mp h)

/-- An entry as an update makes it, from the request and from what is stored. -/
inductive Written (svc : Service) (store : Store) : UpdateRequest → Entry → Prop
  | add {draw : Nat → Nat → Nat} {req : AddRequest} {dn : Dn} {e₀ e : Entry} {store' : Store} :
    entryFromAttributes svc.toProvider draw req.attributes = .ok e₀ →
      Schema.validate e₀ = .ok () →
      Security.stampSecurityPrincipal store svc.referrals.topology dn e₀ = .ok (e, store') →
      Written svc store (.add draw req) e
  | modify {draw : Nat → Nat → Nat} {req : ModifyRequest} {dn : Dn} {e₀ e : Entry} :
    store.getEntry dn = .ok (some e₀) → svc.applyChanges draw e₀ req.changes = .ok e →
      Schema.validate e = .ok () → Written svc store (.modify draw req) e
  | modDn {req : ModifyDnRequest} {old : Dn} {oldRdn rdn : Rdn} {e₀ : Entry} :
    Dn.parse req.entry = .ok old → old.rdns.head? = some oldRdn →
      Dn.parse req.newRdn = .ok ⟨[rdn]⟩ → store.getEntry old = .ok (some e₀) →
      Written svc store (.modDn req) (renamed req rdn oldRdn e₀)
  | passwordModify {draw : Nat} {value : Option Bytes} {bound : Option Str} {dn : Dn}
      {e₀ e : Entry} {fqn : Str} {newPasswd : Bytes} :
    store.getEntry dn = .ok (some e₀) →
      Kdc.setPassword svc.platform.cipher draw e₀ fqn newPasswd = .ok e →
      Written svc store (.passwordModify draw value bound) e

theorem written_of_mem {req : UpdateRequest} {e : Entry}
    (hmem : (dn, some e) ∈ (svc.handle store req).writes) : Written svc store req e := by
  cases req with
  | add draw req =>
    simp only [handle, handleAdd] at hmem
    split at hmem
    · cases hmem
    · next hplan =>
      obtain ⟨e₀, -, -, hattrs, hvalid, hstamp⟩ := planAdd_eq_ok.mp hplan
      cases eq_of_mem_put_writes hmem
      exact .add hattrs hvalid hstamp
  | delete entry =>
    simp only [handle, handleDelete] at hmem
    split at hmem
    · cases hmem
    · split at hmem
      · cases List.mem_singleton.mp hmem
      · cases hmem
  | modify draw req =>
    simp only [handle, handleModify] at hmem
    split at hmem
    · cases hmem
    · next hplan =>
      obtain ⟨e₀, -, -, he, hchanges, hvalid⟩ := planModify_eq_ok.mp hplan
      cases eq_of_mem_put_writes hmem
      exact .modify he hchanges hvalid
  | modDn req =>
    simp only [handle, handleModDn] at hmem
    split at hmem
    · cases hmem
    · next m hplan =>
      obtain ⟨oldRdn, rdn, parent, e₀, hold, hhead, -, hrdn, -, -, -, he, hm⟩ :=
        planModDn_eq_ok.mp hplan
      cases mem_move_writes hmem with
      | inl h =>
        cases h
        rw [hm]
        exact .modDn hold hhead hrdn he
      | inr h => cases h
  | passwordModify draw value bound =>
    simp only [handle, handlePasswordModify] at hmem
    split at hmem
    · cases hmem
    · next hplan =>
      obtain ⟨_, _, newPasswd, _, _, e₀, fqn, -, -, -, -, -, -, -, he, -, hset⟩ :=
        planPasswordModify_eq_ok.mp hplan
      split at hmem
      · cases List.mem_singleton.mp hmem
        exact .passwordModify he hset
      · cases hmem

def Traced (svc : Service) (store : Store) (u : Update) : Prop :=
  Store.Trace svc.indexSpec store u.writes u.store

theorem put_traced (svc : Service) (store : Store) (dn : Dn) (entry : Entry) :
    Traced svc store (svc.put store dn entry) := by
  obtain ⟨store', h, hput⟩ | ⟨result, -, -, hput⟩ := put_cases svc store dn entry
  · rw [hput]
    exact .single (Store.wrote_putEntry h)
  · rw [hput]
    exact .nil _

theorem handleAdd_traced (svc : Service) (draw : Nat → Nat → Nat) (store : Store)
    (req : AddRequest) : Traced svc store (svc.handleAdd draw store req) := by
  unfold handleAdd
  split
  · exact .nil _
  · next dn e store' hplan =>
    obtain ⟨e₀, -, -, -, -, hstamp⟩ := planAdd_eq_ok.mp hplan
    exact (trace_of_stamp hstamp).append (put_traced svc store' dn e)

theorem handleDelete_traced (svc : Service) (store : Store) (entry : Str) :
    Traced svc store (svc.handleDelete store entry) := by
  unfold handleDelete
  split
  · exact .nil _
  · split
    · exact .single (Store.wrote_deleteEntry ‹_›)
    · exact .nil _

theorem handleModify_traced (svc : Service) (draw : Nat → Nat → Nat) (store : Store)
    (req : ModifyRequest) : Traced svc store (svc.handleModify draw store req) := by
  unfold handleModify
  split
  · exact .nil _
  · exact put_traced svc store _ _

theorem move_traced (svc : Service) (store : Store) (m : Move) :
    Traced svc store (svc.move store m) := by
  unfold move
  split
  · exact .nil _
  · next store₁ hput =>
    have hw := Store.wrote_putEntry hput
    split
    · exact .single hw
    · split
      · exact .write hw (.single (Store.wrote_deleteEntry ‹_›))
      · exact .single hw

theorem handlePasswordModify_traced (svc : Service) (draw : Nat) (store : Store)
    (value : Option Bytes) (bound : Option Str) :
    Traced svc store (svc.handlePasswordModify draw store value bound) := by
  unfold handlePasswordModify
  split
  · exact .nil _
  · split
    · exact .single (Store.wrote_putEntry ‹_›)
    · exact .nil _

theorem handle_traced (svc : Service) (store : Store) (req : UpdateRequest) :
    Traced svc store (svc.handle store req) := by
  cases req with
  | add draw req => exact handleAdd_traced svc draw store req
  | delete entry => exact handleDelete_traced svc store entry
  | modify draw req => exact handleModify_traced svc draw store req
  | modDn req =>
    simp only [handle, handleModDn]
    split
    · exact .nil _
    · exact move_traced svc store _
  | passwordModify draw value bound => exact handlePasswordModify_traced svc draw store value bound

section Samples

open Tracked (corp mailSpec)

def corpService : Service where
  platform := .ideal
  derive := fun _ _ _ => .ok (List.replicate 32 0)
  fips := true
  decodePasswdModify := fun _ => .error ""
  indexSpec := mailSpec
  referrals := ⟨none, [], none⟩

def corpStore (kv : OrderedMap Str Value) : Store :=
  ⟨.singleton corp, fun _ => { Cluster.empty with kv := kv }⟩

end Samples

end Service

end IronDirectory.Ldap
