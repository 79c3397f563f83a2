import IronDirectory.Defs.Ldap.UpdateLaws

namespace IronDirectory.Ldap.Service

open Base Crypto Kerberos Naming Storage Outcome

variable {svc : Service} {store : Store}

def AddCarried (svc : Service) (draw : Nat → Nat → Nat) (store : Store) (req : AddRequest)
    (dn : Dn) (e : Entry) : Prop :=
  ∃ e₀ store', Dn.parse req.entry = .ok dn ∧ ¬ svc.referrals.Foreign dn ∧
    entryFromAttributes svc.toProvider draw req.attributes = .ok e₀ ∧
    Schema.validate e₀ = .ok () ∧
    Security.stampSecurityPrincipal store svc.referrals.topology dn e₀ = .ok (e, store') ∧
    store.Accepts dn e svc.indexSpec

def MoveCarried (svc : Service) (store : Store) (req : ModifyDnRequest) (old new : Dn)
    (e : Entry) : Prop :=
  ∃ oldRdn rdn parent e₀, Dn.parse req.entry = .ok old ∧ old.rdns.head? = some oldRdn ∧
    ¬ svc.referrals.Foreign old ∧ Dn.parse req.newRdn = .ok ⟨[rdn]⟩ ∧
    newParent req old = .ok parent ∧ Dn.parse (newDnStr req parent) = .ok new ∧
    (∃ rows, store.scanSubtree old = .ok rows ∧ rows.length ≤ 1) ∧
    store.getEntry old = .ok (some e₀) ∧ e = renamed req rdn oldRdn e₀ ∧
    store.Accepts new e svc.indexSpec

def PasswordCarried (svc : Service) (draw : Nat) (store : Store) (value : Option Bytes)
    (bound : Option Str) (dn : Dn) (e : Entry) : Prop :=
  ∃ bytes req newPasswd identity realm e₀ fqn, svc.fips = true ∧ value = some bytes ∧
    svc.decodePasswdModify bytes = .ok req ∧ req.newPasswd = some newPasswd ∧
    (req.userIdentity.map Utf8.fromUtf8Lossy).or bound = some identity ∧
    resolvePasswordTarget identity = .ok dn ∧
    store.registry.iter.findSome? Partition.realm = some realm ∧
    store.getEntry dn = .ok (some e₀) ∧ principalFqnFor e₀ realm = some fqn ∧
    Kdc.setPassword svc.platform.cipher draw e₀ fqn newPasswd = .ok e ∧
    store.Accepts dn e svc.indexSpec

theorem alike_of_stamp {store' : Store} {topology : Option PartitionRegistry} {dn : Dn}
    {entry stamped : Entry}
    (h : Security.stampSecurityPrincipal store topology dn entry = .ok (stamped, store')) :
    Store.Alike store store' := by
  obtain ⟨-, rfl⟩ | ⟨rid, -, -, hrid, -⟩ := stampSecurityPrincipal_eq_ok h
  · exact .refl _
  · exact Store.alike_allocateRid hrid

theorem addCarried_iff {draw : Nat → Nat → Nat} {req : AddRequest} {dn : Dn} {e : Entry} :
    svc.AddCarried draw store req dn e ↔
      ∃ store', svc.planAdd draw store req = .ok (dn, e, store') ∧
        store'.Accepts dn e svc.indexSpec := by
  constructor
  · rintro ⟨e₀, store', hdn, hown, he, hv, hstamp, hacc⟩
    exact ⟨store', planAdd_eq_ok.mpr ⟨e₀, hdn, hown, he, hv, hstamp⟩,
      (alike_of_stamp hstamp).accepts.mpr hacc⟩
  · rintro ⟨store', hplan, hacc⟩
    obtain ⟨e₀, hdn, hown, he, hv, hstamp⟩ := planAdd_eq_ok.mp hplan
    exact ⟨e₀, store', hdn, hown, he, hv, hstamp, (alike_of_stamp hstamp).accepts.mp hacc⟩

theorem moveCarried_iff {req : ModifyDnRequest} {old new : Dn} {e : Entry} :
    svc.MoveCarried store req old new e ↔
      svc.planModDn store req = .ok ⟨old, new, e⟩ ∧ store.Accepts new e svc.indexSpec := by
  rw [planModDn_eq_ok]
  constructor
  · rintro ⟨oldRdn, rdn, parent, e₀, hd, hh, hown, hrdn, hpar, hnew, hleaf, he, hm, hacc⟩
    exact ⟨⟨oldRdn, rdn, parent, e₀, hd, hh, hown, hrdn, hpar, hnew, hleaf, he, hm⟩, hacc⟩
  · rintro ⟨⟨oldRdn, rdn, parent, e₀, hd, hh, hown, hrdn, hpar, hnew, hleaf, he, hm⟩, hacc⟩
    exact ⟨oldRdn, rdn, parent, e₀, hd, hh, hown, hrdn, hpar, hnew, hleaf, he, hm, hacc⟩

theorem passwordCarried_iff {draw : Nat} {value : Option Bytes} {bound : Option Str} {dn : Dn}
    {e : Entry} :
    svc.PasswordCarried draw store value bound dn e ↔
      svc.planPasswordModify draw store value bound = .ok (dn, e) ∧
        store.Accepts dn e svc.indexSpec := by
  rw [planPasswordModify_eq_ok]
  constructor
  · rintro ⟨bytes, req, pw, id, realm, e₀, fqn, h₁, h₂, h₃, h₄, h₅, h₆, h₇, h₈, h₉, hset, hacc⟩
    exact ⟨⟨bytes, req, pw, id, realm, e₀, fqn, h₁, h₂, h₃, h₄, h₅, h₆, h₇, h₈, h₉, hset⟩, hacc⟩
  · rintro ⟨⟨bytes, req, pw, id, realm, e₀, fqn, h₁, h₂, h₃, h₄, h₅, h₆, h₇, h₈, h₉, hset⟩, hacc⟩
    exact ⟨bytes, req, pw, id, realm, e₀, fqn, h₁, h₂, h₃, h₄, h₅, h₆, h₇, h₈, h₉, hset, hacc⟩

inductive AddCase (svc : Service) (draw : Nat → Nat → Nat) (store : Store) (req : AddRequest) :
    Update → Prop
  | refused {result : LdapResult} {store' : Store} :
    result.Fails → (∀ dn e, ¬ svc.AddCarried draw store req dn e) → Store.Alike store store' →
      AddCase svc draw store req (.refused result store')
  | stored {dn : Dn} {e : Entry} {store₁ store' : Store} :
    svc.AddCarried draw store req dn e → Store.Alike store store₁ →
      store₁.putEntry dn e svc.indexSpec = .ok store' →
      AddCase svc draw store req ⟨.success, store', [(dn, some e)]⟩

theorem handleAdd_cases (svc : Service) (draw : Nat → Nat → Nat) (store : Store)
    (req : AddRequest) : AddCase svc draw store req (svc.handleAdd draw store req) := by
  unfold handleAdd
  split
  · next result hplan =>
    refine .refused (planAdd_errors svc draw store req result hplan) ?_ (.refl _)
    intro dn e hc
    obtain ⟨_, h, -⟩ := addCarried_iff.mp hc
    rw [hplan] at h
    cases h
  · next dn e store₁ hplan =>
    have hstamp : Store.Alike store store₁ := by
      obtain ⟨e₀, -, -, -, -, hstamp⟩ := planAdd_eq_ok.mp hplan
      exact alike_of_stamp hstamp
    obtain ⟨store', h, hput⟩ | ⟨result, hacc, hfails, hput⟩ := put_cases svc store₁ dn e
    · rw [hput]
      exact .stored (addCarried_iff.mpr ⟨store₁, hplan, Store.putEntry_ok_iff.mp ⟨_, h⟩⟩) hstamp h
    · rw [hput]
      refine .refused hfails ?_ hstamp
      intro dn' e' hc
      obtain ⟨_, h, hacc'⟩ := addCarried_iff.mp hc
      cases hplan.symm.trans h
      exact hacc hacc'

inductive MoveCase (svc : Service) (store : Store) (req : ModifyDnRequest) : Update → Prop
  | refused {result : LdapResult} :
    result.Fails → (∀ old new e, ¬ svc.MoveCarried store req old new e) →
      MoveCase svc store req (.refused result store)
  | kept {old new : Dn} {e : Entry} {store₁ : Store} :
    svc.MoveCarried store req old new e → store.putEntry new e svc.indexSpec = .ok store₁ →
      old.Same new → MoveCase svc store req ⟨.success, store₁, [(new, some e)]⟩
  | moved {old new : Dn} {e : Entry} {store₁ store₂ : Store} :
    svc.MoveCarried store req old new e → store.putEntry new e svc.indexSpec = .ok store₁ →
      ¬ old.Same new → store₁.deleteEntry old svc.indexSpec = .ok store₂ →
      MoveCase svc store req ⟨.success, store₂, [(new, some e), (old, none)]⟩
  | doubled {old new : Dn} {e : Entry} {store₁ : Store} {result : LdapResult} :
    svc.MoveCarried store req old new e → store.putEntry new e svc.indexSpec = .ok store₁ →
      ¬ old.Same new → ¬ store₁.Removable old svc.indexSpec → result.Fails →
      MoveCase svc store req ⟨result, store₁, [(new, some e)]⟩

theorem handleModDn_cases (svc : Service) (store : Store) (req : ModifyDnRequest) :
    MoveCase svc store req (svc.handleModDn store req) := by
  unfold handleModDn
  split
  · next result hplan =>
    refine .refused (planModDn_errors svc store req result hplan) ?_
    intro old new e hc
    rw [(moveCarried_iff.mp hc).1] at hplan
    cases hplan
  · next m hplan =>
    unfold move
    split
    · next err hput =>
      refine .refused (storeErrorResult_fails svc err m.newDn) ?_
      intro old new e hc
      obtain ⟨h, hacc⟩ := moveCarried_iff.mp hc
      cases hplan.symm.trans h
      obtain ⟨s', hok⟩ := Store.putEntry_ok_iff.mpr hacc
      cases hput.symm.trans hok
    · next store₁ hput =>
      have hc : svc.MoveCarried store req m.oldDn m.newDn m.entry :=
        moveCarried_iff.mpr ⟨hplan, Store.putEntry_ok_iff.mp ⟨_, hput⟩⟩
      split
      · exact .kept hc hput ‹_›
      · next hsame =>
        split
        · exact .moved hc hput hsame ‹_›
        · next err hdel =>
          refine .doubled hc hput hsame ?_ nofun
          rw [← Store.deleteEntry_ok_iff]
          rintro ⟨s', hok⟩
          cases hdel.symm.trans hok

inductive PasswordCase (svc : Service) (draw : Nat) (store : Store) (value : Option Bytes)
    (bound : Option Str) : Update → Prop
  | refused {result : LdapResult} :
    result.Fails → (∀ dn e, ¬ svc.PasswordCarried draw store value bound dn e) →
      PasswordCase svc draw store value bound (.refused result store)
  | stored {dn : Dn} {e : Entry} {store' : Store} :
    svc.PasswordCarried draw store value bound dn e →
      store.putEntry dn e svc.indexSpec = .ok store' →
      PasswordCase svc draw store value bound ⟨.success, store', [(dn, some e)]⟩

theorem handlePasswordModify_cases (svc : Service) (draw : Nat) (store : Store)
    (value : Option Bytes) (bound : Option Str) :
    PasswordCase svc draw store value bound (svc.handlePasswordModify draw store value bound) := by
  unfold handlePasswordModify
  split
  · next result hplan =>
    refine .refused (planPasswordModify_errors svc draw store value bound result hplan) ?_
    intro dn e hc
    rw [(passwordCarried_iff.mp hc).1] at hplan
    cases hplan
  · next dn e hplan =>
    split
    · next store' hput =>
      exact .stored (passwordCarried_iff.mpr ⟨hplan, Store.putEntry_ok_iff.mp ⟨_, hput⟩⟩) hput
    · next err hput =>
      refine .refused nofun ?_
      intro dn' e' hc
      obtain ⟨h, hacc⟩ := passwordCarried_iff.mp hc
      cases hplan.symm.trans h
      obtain ⟨s', hok⟩ := Store.putEntry_ok_iff.mpr hacc
      cases hput.symm.trans hok

end IronDirectory.Ldap.Service
