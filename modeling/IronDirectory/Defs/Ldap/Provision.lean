import IronDirectory.Defs.Ldap.Referral
import IronDirectory.Defs.Storage.RidPool

namespace IronDirectory.Ldap

open Base Crypto Kerberos Naming Storage Outcome

section Passwords

def defaultIterations : Nat := 210000

def minPasswordLen : Nat := 8

def saltLen : Nat := 16

def hashPassword (p : Provider) (draw : Nat) (password : Bytes) : Except CryptoError Str :=
  if password.length < minPasswordLen then
    .error (.passwordTooShort minPasswordLen password.length)
  else do
    let salt ← p.platform.cipher.randomBytes draw saltLen
    let hash ← p.derive password salt defaultIterations
    return "$pbkdf2-sha256$" ++ Str.ofNat defaultIterations ++ '$' :: Bytes.toHex salt ++
      '$' :: Bytes.toHex hash

def passwordErrorResult : CryptoError → LdapResult
  | .passwordTooShort min actual => .new .constraintViolation
    ("password is " ++ Str.ofNat actual ++ " bytes, shorter than the required minimum of " ++
      Str.ofNat min)
  | .fipsProviderNotActive => .unwilling "FIPS provider not active -- cannot hash userPassword"
  | _ => .unwilling "failed to hash userPassword"

def hashPasswordValues (p : Provider) (draw : Nat → Nat) (values : List Str) :
    Except CryptoError (List Str) :=
  if p.fips then values.zipIdx.mapM fun v => hashPassword p (draw v.2) v.1.toUtf8
  else .error .fipsProviderNotActive

structure Attribute where
  type : Str
  vals : List Bytes
  deriving DecidableEq

def Attribute.values (a : Attribute) : List Str := a.vals.map Utf8.fromUtf8Lossy

def isUserPassword (attr : Str) : Bool := attr.eqIgnoreAsciiCase userPasswordAttr

def entryFromAttributes (p : Provider) (draw : Nat → Nat → Nat) (attrs : List Attribute) :
    Except CryptoError Entry :=
  attrs.zipIdx.foldlM (fun entry a =>
    if isUserPassword a.1.type then do
      return entry.set a.1.type (← hashPasswordValues p (draw a.2) a.1.values)
    else return entry.set a.1.type a.1.values) .new

end Passwords

namespace Schema

structure ObjectClass where
  name : Str
  must : List Str

def classes : List ObjectClass :=
  [⟨"top", []⟩, ⟨"person", ["cn"]⟩, ⟨"organizationalPerson", ["cn"]⟩, ⟨"inetOrgPerson", ["cn"]⟩,
    ⟨"organizationalUnit", ["ou"]⟩, ⟨"groupOfNames", ["cn", "member"]⟩, ⟨"user", ["cn"]⟩,
    ⟨"computer", ["cn"]⟩, ⟨"group", ["cn"]⟩,
    ⟨"posixAccount", ["cn", "uid", "uidNumber", "gidNumber", "homeDirectory"]⟩,
    ⟨"posixGroup", ["cn", "gidNumber"]⟩]

def missing (entry : Entry) (oc : Str) : Option Str := do
  let c ← classes.find? fun c => c.name.eqIgnoreAsciiCase oc
  c.must.find? fun m => (entry.valuesOf m).isEmpty

def validate (entry : Entry) : Except Str Unit :=
  match (entry.valuesOf "objectclass").findSome? fun oc => (missing entry oc).map (oc, ·) with
  | some (oc, must) => .error ("objectClass " ++ oc ++ " requires attribute " ++ must)
  | none => .ok ()

end Schema

namespace Security

def securityPrincipalClasses : List Str := ["user", "computer", "group"]

def declaresSecurityPrincipalClass (entry : Entry) : Bool :=
  (entry.valuesOf "objectclass").any fun c =>
    securityPrincipalClasses.any fun sc => sc.eqIgnoreAsciiCase c

def domainSid (store : Store) (topology : Option PartitionRegistry) (dn : Dn) : Option Sid := do
  let p ← (topology.getD store.registry).resolve dn
  Sid.parse (← p.domainSid)

def stampSecurityPrincipal (store : Store) (topology : Option PartitionRegistry) (dn : Dn)
    (entry : Entry) : Except StoreError (Entry × Store) :=
  if declaresSecurityPrincipalClass entry then
    match domainSid store topology dn with
    | none => .ok (entry, store)
    | some sid => do
      let (rid, store) ← store.allocateRid dn
      let objectSid := sid.withSubAuthority (UInt32.ofNat rid)
      return ((entry.set objectSidAttr [encodeBinaryAttr objectSid.encode]).set
        ntSecurityDescriptorAttr
        [encodeBinaryAttr (SecurityDescriptor.defaultDescriptor sid)], store)
  else .ok (entry, store)

end Security

end IronDirectory.Ldap
