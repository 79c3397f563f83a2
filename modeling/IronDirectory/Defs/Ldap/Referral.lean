import IronDirectory.Defs.Ldap.Session

namespace IronDirectory.Ldap

open Base Naming Storage

structure LdapResult where
  resultCode : ResultCode
  diagnosticMessage : Str
  referral : Option (List Str)
  deriving DecidableEq

namespace LdapResult

def new (code : ResultCode) (diagnostic : Str) : LdapResult := ⟨code, diagnostic, none⟩

def unwilling (diagnostic : Str) : LdapResult := new .unwillingToPerform diagnostic

def success : LdapResult := new .success ""

def operationsError (diagnostic : Str) : LdapResult := new .operationsError diagnostic

def invalidDn : LdapResult := new .invalidDnSyntax "invalid DN"

def noSuchObject : LdapResult := new .noSuchObject ""

def referTo (url : Str) (dn : Dn) : LdapResult :=
  ⟨.referral, "", some [url.trimEndMatches '/' ++ '/' :: dn.display]⟩

end LdapResult

structure Referrals where
  topology : Option PartitionRegistry
  staticList : List (Dn × Str)
  ownPartitionId : Option PartitionId

namespace Referrals

def referralFor (refs : Referrals) (dn : Dn) : Option Str :=
  let known := do
    let topology ← refs.topology
    let p ← topology.resolve dn
    p.ldapUrl
  match known with
  | some url => some url
  | none => (refs.staticList.find? fun r => dn.isWithin r.1).map Prod.snd

-- A name below a child domain is structurally below this server's own base,
-- so the store alone would take it for its own.
def proactiveReferral (refs : Referrals) (dn : Dn) : Option LdapResult := do
  let topology ← refs.topology
  let ownId ← refs.ownPartitionId
  let owner ← topology.resolve dn
  if owner.id = ownId then none
  else
    let url ← owner.ldapUrl
    some (.referTo url dn)

/-- The topology gives the name to another partition that can be referred to. -/
def Foreign (refs : Referrals) (dn : Dn) : Prop :=
  ∃ topology ownId owner url, refs.topology = some topology ∧
    refs.ownPartitionId = some ownId ∧ topology.resolve dn = some owner ∧
      owner.id ≠ ownId ∧ owner.ldapUrl = some url

theorem proactiveReferral_eq_none {refs : Referrals} {dn : Dn} :
    refs.proactiveReferral dn = none ↔ ¬ refs.Foreign dn := by
  rw [← not_iff_not, not_not, ← Ne, Option.ne_none_iff_exists']
  simp only [proactiveReferral, bind, Option.bind_eq_some_iff]
  constructor
  · rintro ⟨r, topology, ht, ownId, ho, owner, hr, h⟩
    split at h
    · cases h
    · obtain ⟨url, hu, -⟩ := Option.bind_eq_some_iff.mp h
      exact ⟨topology, ownId, owner, url, ht, ho, hr, ‹_›, hu⟩
  · rintro ⟨topology, ownId, owner, url, ht, ho, hr, hne, hu⟩
    refine ⟨.referTo url dn, topology, ht, ownId, ho, owner, hr, ?_⟩
    rw [if_neg hne, hu]
    rfl

def storeErrorResult (debugStr : Str → Str) (e : StoreError) (refs : Referrals) (dn : Dn) :
    LdapResult :=
  match e, refs.referralFor dn with
  | .noPartitionFor _, some url => .referTo url dn
  | e, _ => .operationsError (e.display debugStr)

end Referrals

end IronDirectory.Ldap
