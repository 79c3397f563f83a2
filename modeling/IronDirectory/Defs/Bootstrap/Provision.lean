import IronDirectory.Defs.Config.Ctl
import IronDirectory.Defs.Ldap.Provision

/-! `iron-bootstrap`: whatever a new domain needs and is missing is created, the
registry's records first, then the base entry and the two well-known accounts. -/

namespace IronDirectory.Bootstrap

open Base Crypto Naming Storage Config Kdc

def administratorRid : UInt32 := 500

def krbtgtRid : UInt32 := 502

def administrator : Str := "administrator"

structure Settings where
  endpoint : Str
  partitionId : Str
  baseDn : Dn
  realm : Str
  netbiosName : Str
  adminPassword : Bytes

inductive ProvisionError
  | partition (e : PartitionError)
  | store (e : StoreError)
  | config (e : ConfigError)
  | crypto (e : CryptoError)
  | principal (e : PrincipalError)
  | missingRecord
  | otherBaseDn (stored given : Dn)
  | otherRealm (stored : Option Str) (given : Str)
  | notSid (text : Str)

def parsed {α : Type} (x : Except PartitionError α) : Except ProvisionError α :=
  x.mapError .partition

namespace Settings

variable (s : Settings)

def configPartitionId : Str := s.partitionId ++ "-config"

def schemaPartitionId : Str := s.partitionId ++ "-schema"

def configDn : Except PartitionError Dn :=
  Dn.parse ("cn=" ++ "configuration" ++ ',' :: s.baseDn.display)

def adminDn : Except PartitionError Dn :=
  Dn.parse ("cn=" ++ administrator ++ ',' :: s.baseDn.display)

def krbtgtDn : Except PartitionError Dn :=
  Dn.parse ("cn=" ++ "krbtgt" ++ ',' :: s.baseDn.display)

def cluster : ClusterRef := .plaintext [s.endpoint]

def krbtgt : Str := "krbtgt/" ++ s.realm ++ '@' :: s.realm

def admin : Str := administrator ++ '@' :: s.realm

def registry : Except ProvisionError PartitionRegistry := do
  let forest ← parsed (ForestId.new s.partitionId)
  let configDn ← parsed s.configDn
  let config ← parsed (Partition.configuration s.configPartitionId forest configDn s.cluster)
  let reg ← parsed (PartitionRegistry.new.insert config)
  let domain ← parsed (Partition.domain s.partitionId forest s.baseDn s.cluster)
  parsed (reg.insert domain)

end Settings

structure Report where
  created : List Str
  domainSid : Str

structure Draws where
  context : Nat
  rootSid : Nat
  filledSid : Nat
  krbtgtSecret : Nat
  krbtgtSalt : Nat
  adminHash : Nat
  adminSalt : Nat

def checkMatches (s : Settings) (stored : Partition) : Except ProvisionError Unit := do
  Outcome.ensure (stored.baseDn.Same s.baseDn) (.otherBaseDn stored.baseDn s.baseDn)
  Outcome.ensure (stored.realm = some s.realm) (.otherRealm stored.realm s.realm)

def baseEntry (baseDn : Dn) (domainSid : Sid) : Entry :=
  let e := Entry.new.set "objectclass" ["top", "domain", "domainDNS"]
  let e :=
    match (baseDn.rdns.head?.bind fun r => r.avas.head?).filter
        fun a => a.attr.eqIgnoreAsciiCase "dc" with
    | some dc => e.set "dc" [dc.value]
    | none => e
  e.set objectSidAttr [encodeBinaryAttr domainSid.encode]

def accountEntry (name : Str) (domainSid : Sid) (rid : UInt32) : Entry :=
  ((((Entry.new.set "objectclass" ["top", "person", "organizationalPerson", "user"]).set
    "cn" [name]).set "samaccountname" [name]).set
    objectSidAttr [encodeBinaryAttr (domainSid.withSubAuthority rid).encode]).set
    ntSecurityDescriptorAttr [encodeBinaryAttr (SecurityDescriptor.defaultDescriptor domainSid)]

section Run

variable (json : Json) (fips : Ldap.Provider) (reg : PartitionRegistry) (s : Settings)
  (draws : Draws)

def krbtgtEntry (domainSid : Sid) : Except ProvisionError Entry := do
  let secret ← (fips.platform.cipher.randomBytes draws.krbtgtSecret 32).mapError .crypto
  (setPassword fips.platform.cipher draws.krbtgtSalt (accountEntry "krbtgt" domainSid krbtgtRid)
    s.krbtgt (Bytes.toHex secret).toUtf8).mapError .principal

def adminEntry (domainSid : Sid) : Except ProvisionError Entry := do
  let entry := (accountEntry administrator domainSid administratorRid).set "uid" [administrator]
  let hash ← (Ldap.hashPassword fips draws.adminHash s.adminPassword).mapError .crypto
  (setPassword fips.platform.cipher draws.adminSalt (entry.set "userpassword" [hash]) s.admin
    s.adminPassword).mapError .principal

def fill (stored : Partition) : Except CryptoError Partition := do
  let filled ← ensureDomainSid fips.platform.cipher draws.filledSid stored
  return match filled.netbiosName with
    | some _ => filled
    | none => filled.withNetbiosName s.netbiosName

def createRecords (configDn : Dn) : List Partition → Calls ProvisionError (List Str)
  | [] => return []
  | p :: ps => do
    let made ← Calls.mapError .config (createPartition json reg configDn p)
    let rest ← createRecords configDn ps
    return if made then ("partition " ++ p.id.str) :: rest else rest

def settleRoot (configDn : Dn) : Calls ProvisionError (Partition × List Str) := do
  let registry ← Calls.mapError .config (loadRegistry json reg configDn)
  let pid ← Calls.ofExcept (parsed (PartitionId.new s.partitionId))
  let stored ← Calls.ofExcept (Outcome.require (registry.get pid) .missingRecord)
  Calls.ofExcept (checkMatches s stored)
  let filled ← Calls.ofExcept ((fill fips s draws stored).mapError .crypto)
  if filled = stored then
    return (filled, [])
  else do
    Calls.mapError .config (putPartition json reg configDn filled)
    return (filled, ["partition " ++ pid.str ++ " (missing fields filled)"])

def createNamed (name : Str) (dn : Dn) (entry : Entry) : Calls ProvisionError (List Str) := do
  let made ← Calls.mapError .store (Calls.createEntry reg dn entry Kdc.indexSpec)
  return if made then [name] else []

def principalExists (principal : Str) : Calls ProvisionError Bool := do
  let found ← Calls.mapError .store
    (Calls.lookupByIndex reg s.baseDn attrPrincipalName principal)
  return !found.isEmpty

def createKrbtgt (domainSid : Sid) : Calls ProvisionError (List Str) := do
  let found ← principalExists reg s s.krbtgt
  if found then
    return []
  else do
    let entry ← Calls.ofExcept (krbtgtEntry fips s draws domainSid)
    let dn ← Calls.ofExcept (parsed s.krbtgtDn)
    createNamed reg s.krbtgt dn entry

def createAdmin (domainSid : Sid) : Calls ProvisionError (List Str) := do
  let dn ← Calls.ofExcept (parsed s.adminDn)
  let found ← principalExists reg s s.admin
  if found then
    return []
  else do
    let present ← Calls.mapError .store (Calls.getEntry reg dn)
    if present.isSome then
      return []
    else do
      let entry ← Calls.ofExcept (adminEntry fips s draws domainSid)
      createNamed reg s.admin dn entry

def provision : Calls ProvisionError Report := do
  Calls.ofExcept ((fips.platform.cipher.newContext draws.context).mapError .crypto)
  let configDn ← Calls.ofExcept (parsed s.configDn)
  let forest ← Calls.ofExcept (parsed (ForestId.new s.partitionId))
  let config ← Calls.ofExcept
    (parsed (Partition.configuration s.configPartitionId forest configDn s.cluster))
  let schemaDn ← Calls.ofExcept (parsed (Dn.parse ("cn=" ++ "schema" ++ ',' :: configDn.display)))
  let schema ← Calls.ofExcept
    (parsed (Partition.schema s.schemaPartitionId forest schemaDn s.cluster))
  let root ← Calls.ofExcept (parsed (Partition.domain s.partitionId forest s.baseDn s.cluster))
  let sid ← Calls.ofExcept
    ((generateDomainSid fips.platform.cipher draws.rootSid).mapError .crypto)
  let root := ((root.withRealm s.realm).withNetbiosName s.netbiosName).withDomainSid sid
  let records ← createRecords json reg configDn [config, schema, root]
  let settled ← settleRoot json fips reg s draws configDn
  let domainSidStr := settled.1.domainSid.getD []
  let domainSid ← Calls.ofExcept
    (Outcome.require (Sid.parse domainSidStr) (.notSid domainSidStr))
  let base ← createNamed reg s.baseDn.display s.baseDn (baseEntry s.baseDn domainSid)
  let krbtgt ← createKrbtgt fips reg s draws domainSid
  let admin ← createAdmin fips reg s draws domainSid
  return ⟨records ++ settled.2 ++ base ++ krbtgt ++ admin, domainSidStr⟩

end Run

end IronDirectory.Bootstrap
