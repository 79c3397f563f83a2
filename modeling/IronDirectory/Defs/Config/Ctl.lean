import IronDirectory.Defs.Config.Records

namespace IronDirectory.Config

open Base Crypto Naming Storage Prog

inductive CtlError
  | usage (text : Str)
  | unknownCommand (cmd : Str)
  | required (name : Str)
  | noSuchPartition (id : Str)
  | alreadyExists (id : Str)
  | notSid (text : Str)
  | partition (e : PartitionError)
  | store (e : StoreError)
  | config (e : ConfigError)
  | crypto (e : CryptoError)

structure Env where
  fastetcdEndpoint : Option Str
  partitionId : Option Str
  baseDn : Option Str
  rootLdapUrl : Option Str
  ldapUrl : Option Str
  childEndpoint : Option Str

def env (v : Option Str) : Option Str := v.filter fun v => !v.isEmpty

def requireEnv (name : Str) (v : Option Str) : Except CtlError Str :=
  Outcome.require (env v) (.required name)

def parsed {α : Type} (x : Except PartitionError α) : Calls CtlError α :=
  Calls.ofExcept (x.mapError .partition)

variable (json : Json) (c : Cipher) (vars : Env)

def connectAndLoad : Calls CtlError (Partition × PartitionRegistry) := do
  let endpoint ← Calls.ofExcept (requireEnv "IRON_CONFIG_FASTETCD_ENDPOINT" vars.fastetcdEndpoint)
  let pid ← Calls.ofExcept (requireEnv "IRON_CONFIG_PARTITION_ID" vars.partitionId)
  let baseDn ← Calls.ofExcept (requireEnv "IRON_CONFIG_BASE_DN" vars.baseDn)
  let configDn ← parsed (Dn.parse baseDn)
  -- A placeholder, the record itself says which forest it is.
  let forest ← parsed (ForestId.new pid)
  let config ← parsed (Partition.configuration pid forest configDn (.plaintext [endpoint]))
  Calls.mapError .store (Calls.connect (.singleton config))
  let registry ← Calls.mapError .config (loadRegistry json (.singleton config) config.baseDn)
  return (config, registry)

def putRecord (config p : Partition) : Calls CtlError Unit :=
  Calls.mapError .config (putPartition json (.singleton config) config.baseDn p)

def setField (set : Partition → Str → Partition) (partitionId value : Str) :
    Calls CtlError Unit := do
  let (config, registry) ← connectAndLoad json vars
  let pid ← parsed (PartitionId.new partitionId)
  let p ← Calls.ofExcept (Outcome.require (registry.get pid) (.noSuchPartition partitionId))
  putRecord json config (set p value)

def setLdapUrl (args : List Str) : Calls CtlError Unit :=
  match args with
  | partitionId :: url :: _ => setField json vars Partition.withLdapUrl partitionId url
  | _ => Calls.ofExcept (.error (.usage
      "usage: iron-config-ctl set-ldap-url <partition-id> <ldap-url>"))

def setKdcUrl (args : List Str) : Calls CtlError Unit :=
  match args with
  | partitionId :: url :: _ => setField json vars Partition.withKdcUrl partitionId url
  | _ => Calls.ofExcept (.error (.usage
      "usage: iron-config-ctl set-kdc-url <partition-id> <kdc-url>"))

def setDomainSid (args : List Str) : Calls CtlError Unit :=
  match args with
  | partitionId :: sid :: _ =>
    if (Sid.parse sid).isNone then Calls.ofExcept (.error (.notSid sid))
    else setField json vars Partition.withDomainSid partitionId sid
  | _ => Calls.ofExcept (.error (.usage
      "usage: iron-config-ctl set-domain-sid <partition-id> <domain-sid>"))

def addSubordinate (args : List Str) : Calls CtlError Unit :=
  match args with
  | parentId :: childId :: _ => do
    let (config, registry) ← connectAndLoad json vars
    let parentPid ← parsed (PartitionId.new parentId)
    let childPid ← parsed (PartitionId.new childId)
    let _ ← Calls.ofExcept (Outcome.require (registry.get childPid) (.noSuchPartition childId))
    let parent ← Calls.ofExcept
      (Outcome.require (registry.get parentPid) (.noSuchPartition parentId))
    if parent.subordinates.contains childPid then
      return ()
    else
      putRecord json config { parent with subordinates := parent.subordinates ++ [childPid] }
  | _ => Calls.ofExcept (.error (.usage
      "usage: iron-config-ctl add-subordinate <parent-id> <child-id>"))

def givenRoot (root : Partition) (realm ldapUrl : Option Str) : Partition :=
  let root := match realm with
    | some realm => root.withRealm realm
    | none => root
  match ldapUrl with
  | some url => root.withLdapUrl url
  | none => root

/-- What a root domain keeps of the record it replaces. -/
def carryOver (root : Partition) (prior : Option Partition) : Partition :=
  match prior with
  | some prior => { root with subordinates := prior.subordinates, domainSid := prior.domainSid }
  | none => root

def ensureDomainSid (draw : Nat) (p : Partition) : Except CryptoError Partition :=
  match p.domainSid with
  | some _ => .ok p
  | none => do return p.withDomainSid (← generateDomainSid c draw)

def initForest (draw : Nat) (args : List Str) : Calls CtlError Unit :=
  match args with
  | forestId :: configId :: configBaseDn :: rootId :: rootBaseDn :: rest => do
    let endpoint ← Calls.ofExcept
      (requireEnv "IRON_CONFIG_FASTETCD_ENDPOINT" vars.fastetcdEndpoint)
    let forest ← parsed (ForestId.new forestId)
    let configDn ← parsed (Dn.parse configBaseDn)
    let rootDn ← parsed (Dn.parse rootBaseDn)
    let config ← parsed (Partition.configuration configId forest configDn (.plaintext [endpoint]))
    Calls.mapError .store (Calls.connect (.singleton config))
    let existing ← Calls.unwrapOr .new (loadRegistry json (.singleton config) config.baseDn)
    putRecord json config config
    let schemaDn ← parsed (Dn.parse ("cn=schema," ++ configBaseDn))
    let schema ← parsed
      (Partition.schema (forestId ++ "-schema") forest schemaDn (.plaintext [endpoint]))
    putRecord json config schema
    let root ← parsed (Partition.domain rootId forest rootDn (.plaintext [endpoint]))
    let root := carryOver (givenRoot root rest.head? (env vars.rootLdapUrl)) (existing.get root.id)
    let root ← Calls.ofExcept ((ensureDomainSid c draw root).mapError .crypto)
    putRecord json config root
  | _ => Calls.ofExcept (.error (.usage
      ("usage: iron-config-ctl init-forest <forest-id> <config-id> <config-base-dn> " ++
        "<root-domain-id> <root-base-dn> [realm]")))

def givenChild (child : Partition) (superior : PartitionId) (sid : Str)
    (realm ldapUrl : Option Str) : Partition :=
  givenRoot ((child.withSuperior superior).withDomainSid sid) realm ldapUrl

def createChild (draw : Nat) (args : List Str) : Calls CtlError Unit :=
  match args with
  | parentId :: newId :: newBaseDn :: rest => do
    let (config, registry) ← connectAndLoad json vars
    let parentPid ← parsed (PartitionId.new parentId)
    let parent ← Calls.ofExcept
      (Outcome.require (registry.get parentPid) (.noSuchPartition parentId))
    let newPid ← parsed (PartitionId.new newId)
    if (registry.get newPid).isSome then
      Calls.ofExcept (.error (.alreadyExists newId))
    else
      let cluster := match env vars.childEndpoint with
        | some endpoint => .plaintext [endpoint]
        | none => parent.cluster
      let newDn ← parsed (Dn.parse newBaseDn)
      let child ← parsed (Partition.domain newId parent.forest newDn cluster)
      let sid ← Calls.ofExcept ((generateDomainSid c draw).mapError .crypto)
      putRecord json config (givenChild child parentPid sid rest.head? (env vars.ldapUrl))
      putRecord json config { parent with subordinates := parent.subordinates ++ [newPid] }
  | _ => Calls.ofExcept (.error (.usage
      "usage: iron-config-ctl create-child <parent-id> <new-id> <new-base-dn> [realm]"))

def show' : Calls CtlError Unit := do
  let _ ← connectAndLoad json vars
  return ()

inductive Command
  | initForest | createChild | setLdapUrl | setKdcUrl | setDomainSid | addSubordinate | show
  deriving DecidableEq

def Command.ofStr (cmd : Str) : Option Command :=
  if cmd = "init-forest" then some .initForest
  else if cmd = "create-child" then some .createChild
  else if cmd = "set-ldap-url" then some .setLdapUrl
  else if cmd = "set-kdc-url" then some .setKdcUrl
  else if cmd = "set-domain-sid" then some .setDomainSid
  else if cmd = "add-subordinate" then some .addSubordinate
  else if cmd = "show" then some .show
  else none

def runCommand (draw : Nat) (args : List Str) : Command → Calls CtlError Unit
  | .initForest => initForest json c vars draw args
  | .createChild => createChild json c vars draw args
  | .setLdapUrl => setLdapUrl json vars args
  | .setKdcUrl => setKdcUrl json vars args
  | .setDomainSid => setDomainSid json vars args
  | .addSubordinate => addSubordinate json vars args
  | .show => show' json vars

def main (draw : Nat) (args : List Str) : Calls CtlError Unit :=
  match args with
  | [] => Calls.ofExcept (.error (.usage
      "usage: iron-config-ctl <init-forest|create-child|show> ..."))
  | cmd :: rest =>
    match Command.ofStr cmd with
    | some command => runCommand json c vars draw rest command
    | none => Calls.ofExcept (.error (.unknownCommand cmd))

end IronDirectory.Config
