import IronDirectory.Defs.Kdc.App
import IronDirectory.Defs.Kdc.Keytab
import IronDirectory.Defs.Naming.Builders

namespace IronDirectory.Kdc.Ctl

open Base Crypto Kerberos Naming Storage

inductive CtlError
  | usage (text : Str)
  | required (name : Str)
  | unknownCommand (cmd : Str)
  | noSuchPrincipal (principal : Str)
  | notUnique (principal : Str) (found : Nat)
  | missingEntry (dn : Str)
  | noStoredKeys (principal : Str)
  | partition (e : PartitionError)
  | store (e : StoreError)
  | crypto (e : CryptoError)
  | principal (e : Fault PrincipalError)

section Connection

structure Vars where
  fastetcdEndpoint : Option Str
  partitionId : Option Str
  baseDn : Option Str
  realm : Option Str

structure Settings where
  endpoint : Str
  pid : Str
  baseDnStr : Str
  realm : Str

def requireEnv (name : Str) (v : Option Str) : Except CtlError Str :=
  Outcome.require (v.filter fun v => !v.isEmpty) (.required name)

def settings (vars : Vars) : Except CtlError Settings := do
  let endpoint ← requireEnv "IRON_KDC_FASTETCD_ENDPOINT" vars.fastetcdEndpoint
  let pid ← requireEnv "IRON_KDC_PARTITION_ID" vars.partitionId
  let baseDnStr ← requireEnv "IRON_KDC_BASE_DN" vars.baseDn
  let realm ← requireEnv "IRON_KDC_REALM" vars.realm
  return ⟨endpoint, pid, baseDnStr, realm⟩

def partition (s : Settings) : Except PartitionError Partition := do
  let forest ← ForestId.new s.pid
  let baseDn ← Dn.parse s.baseDnStr
  Partition.domain s.pid forest baseDn (.plaintext [s.endpoint])

def connect (net : ClusterRef → Cluster) (s : Settings) : Except CtlError (Store × Dn) := do
  let p ← (partition s).mapError .partition
  let registry ← (PartitionRegistry.new.insert p).mapError .partition
  return (⟨registry, net⟩, p.baseDn)

end Connection

inductive Setting
  | password (principal password : Str)
  | crossRealmKey (toRealm fromRealm secret : Str)

namespace Setting

def principalFqn (realm : Str) : Setting → Str
  | password principal _ => Kerberos.principalFqn principal realm
  | crossRealmKey toRealm fromRealm _ =>
    Kerberos.principalFqn ("krbtgt/" ++ toRealm.asciiUpper) fromRealm.asciiUpper

def cnValue : Setting → Str
  | password principal _ => principal.replace '/' "."
  | crossRealmKey toRealm fromRealm _ =>
    Str.replace ("krbtgt/" ++ toRealm.asciiUpper) '/' "." ++ '.' :: fromRealm.asciiUpper

def setKeys (c : Cipher) (draw : Nat) (principalFqn : Str) (entry : Entry) :
    Setting → Except PrincipalError Entry
  | .password _ secret => setPassword c draw entry principalFqn secret.toUtf8
  | .crossRealmKey _ _ secret => setSharedKey c entry principalFqn secret.toUtf8

def fresh (cmd : Setting) : Entry :=
  (Entry.new.set "objectclass" ["top"]).set "cn" [cmd.cnValue]

def dnText (cmd : Setting) (baseDnStr : Str) : Str := "cn=" ++ cmd.cnValue ++ ',' :: baseDnStr

def target (cmd : Setting) (s : Settings) (store : Store) (baseDn : Dn) :
    Except CtlError (Dn × Entry) := do
  let fqn := cmd.principalFqn s.realm
  match ← (store.lookupByIndex baseDn attrPrincipalName fqn).mapError .store with
  | [] =>
    let dn ← (Dn.parse (cmd.dnText s.baseDnStr)).mapError .partition
    return (dn, cmd.fresh)
  | [dn] =>
    let found ← (store.getEntry dn).mapError .store
    let entry ← Outcome.require found (.missingEntry dn.display)
    return (dn, entry)
  | multiple => .error (.notUnique fqn multiple.length)

def run (c : Cipher) (draw : Nat → Nat) (net : ClusterRef → Cluster) (s : Settings)
    (cmd : Setting) : Except CtlError (Store × Dn) := do
  let (store, baseDn) ← connect net s
  (c.newContext (draw 0)).mapError .crypto
  let (dn, entry) ← cmd.target s store baseDn
  let entry ← (cmd.setKeys c (draw 1) (cmd.principalFqn s.realm) entry).mapError
    fun e => .principal (.error e)
  let store ← (store.putEntry dn entry indexSpec).mapError .store
  return (store, dn)

def message (realm : Str) (dn : Dn) : Setting → Str
  | cmd@(password _ _) =>
    "set password for " ++ cmd.principalFqn realm ++ " (dn: " ++ dn.display ++ ")"
  | cmd@(crossRealmKey _ _ _) =>
    "set cross-realm key " ++ cmd.principalFqn realm ++ " (dn: " ++ dn.display ++
      ") -- run the identical command against the peer realm's KDC too"

end Setting

def principalKeys (store : Store) (baseDn : Dn) (principalFqn : Str) :
    Except CtlError (List PrincipalKey) := do
  match ← (store.lookupByIndex baseDn attrPrincipalName principalFqn).mapError .store with
  | [] => .error (.noSuchPrincipal principalFqn)
  | [dn] =>
    let found ← (store.getEntry dn).mapError .store
    let entry ← Outcome.require found (.missingEntry dn.display)
    let ks ← (keys entry).mapError .principal
    if ks.isEmpty then .error (.noStoredKeys principalFqn) else return ks
  | multiple => .error (.notUnique principalFqn multiple.length)

def exportKeytab (net : ClusterRef → Cluster) (s : Settings) (timestamp : UInt32)
    (principal : Str) : Except CtlError (Bytes × Nat) := do
  let (store, baseDn) ← connect net s
  let ks ← principalKeys store baseDn (principalFqn principal s.realm)
  let components := (stringToPrincipalName principal).string.map gstringToString
  let entries := ks.map fun k =>
    { realm := s.realm, components, nameType := if components.length > 1 then 2 else 1, timestamp,
      kvno := k.kvno, enctype := k.enctype, key := k.key : KeytabEntry }
  return (Keytab.write entries, entries.length)

inductive Done
  | stored (store : Store) (message : Str)
  | wrote (path : Str) (contents : Bytes) (message : Str)

def main (c : Cipher) (draw : Nat → Nat) (timestamp : UInt32) (net : ClusterRef → Cluster)
    (vars : Vars) (args : List Str) : Except CtlError Done :=
  match args with
  | cmd :: principal :: third :: rest => do
    let s ← settings vars
    let set (cmd : Setting) : Except CtlError Done := do
      let (store, dn) ← cmd.run c draw net s
      return .stored store (cmd.message s.realm dn)
    if cmd = "set-password" then set (.password principal third)
    else if cmd = "export-keytab" then
      let (contents, count) ← exportKeytab net s timestamp principal
      return .wrote third contents ("wrote " ++ Str.ofNat count ++ " key(s) for " ++
        principalFqn principal s.realm ++ " to " ++ third)
    else if cmd = "set-cross-realm-key" then
      let secret ← Outcome.require rest.head? (.usage
        "usage: iron-kdc-ctl set-cross-realm-key <to-realm> <from-realm> <secret>")
      set (.crossRealmKey principal third secret)
    else .error (.unknownCommand cmd)
  | _ => .error (.usage
      ("usage: iron-kdc-ctl <set-password|export-keytab> <principal> <password|output-file>, " ++
        "or set-cross-realm-key <to-realm> <from-realm> <secret>"))

end IronDirectory.Kdc.Ctl
