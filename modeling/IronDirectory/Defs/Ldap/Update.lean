import IronDirectory.Defs.Ldap.Provision
import IronDirectory.Defs.Storage.Subtree

/-! The update operations.  Each handler first checks the request, then writes;
beside its result and the store it leaves, an update records the names it wrote
and what it wrote there. -/

namespace IronDirectory.Ldap

open Base Crypto Kerberos Naming Storage Outcome

structure AddRequest where
  entry : Str
  attributes : List Attribute

inductive ChangeOperation
  | add | delete | replace
  deriving DecidableEq

structure Change where
  operation : ChangeOperation
  modification : Attribute

structure ModifyRequest where
  object : Str
  changes : List Change

structure ModifyDnRequest where
  entry : Str
  newRdn : Str
  deleteOldRdn : Bool
  newSuperior : Option Str

structure PasswdModifyRequestValue where
  userIdentity : Option Bytes
  oldPasswd : Option Bytes
  newPasswd : Option Bytes
  deriving DecidableEq

structure Service extends Provider where
  decodePasswdModify : Bytes → Except Str PasswdModifyRequestValue
  indexSpec : IndexSpec
  referrals : Referrals

/-- The outcome of an update; `none` stands for a removed entry. -/
structure Update where
  result : LdapResult
  store : Store
  writes : List (Dn × Option Entry)

def Update.refused (result : LdapResult) (store : Store) : Update := ⟨result, store, []⟩

namespace Service

def storeErrorResult (svc : Service) (e : StoreError) (dn : Dn) : LdapResult :=
  svc.referrals.storeErrorResult svc.platform.debugStr e dn

def target (svc : Service) (s : Str) : Except LdapResult Dn := do
  let dn ← (Dn.parse s).mapError fun _ => .invalidDn
  match svc.referrals.proactiveReferral dn with
  | some result => .error result
  | none => return dn

def existing (svc : Service) (store : Store) (dn : Dn) : Except LdapResult Entry :=
  match store.getEntry dn with
  | .ok (some e) => .ok e
  | .ok none => .error .noSuchObject
  | .error e => .error (svc.storeErrorResult e dn)

def validated (entry : Entry) : Except LdapResult Unit :=
  (Schema.validate entry).mapError (.new .objectClassViolation)

def put (svc : Service) (store : Store) (dn : Dn) (entry : Entry) : Update :=
  match store.putEntry dn entry svc.indexSpec with
  | .ok store' => ⟨.success, store', [(dn, some entry)]⟩
  | .error e => .refused (svc.storeErrorResult e dn) store

def planAdd (svc : Service) (draw : Nat → Nat → Nat) (store : Store) (req : AddRequest) :
    Except LdapResult (Dn × Entry × Store) := do
  let dn ← svc.target req.entry
  let entry ← (entryFromAttributes svc.toProvider draw req.attributes).mapError passwordErrorResult
  validated entry
  let (entry, store) ← (Security.stampSecurityPrincipal store svc.referrals.topology dn
    entry).mapError fun e => svc.storeErrorResult e dn
  return (dn, entry, store)

def handleAdd (svc : Service) (draw : Nat → Nat → Nat) (store : Store) (req : AddRequest) :
    Update :=
  match svc.planAdd draw store req with
  | .error result => .refused result store
  | .ok (dn, entry, store) => svc.put store dn entry

def handleDelete (svc : Service) (store : Store) (entry : Str) : Update :=
  match svc.target entry with
  | .error result => .refused result store
  | .ok dn =>
    match store.deleteEntry dn svc.indexSpec with
    | .ok store' => ⟨.success, store', [(dn, none)]⟩
    | .error e => .refused (svc.storeErrorResult e dn) store

def applyChange (svc : Service) (draw : Nat → Nat) (entry : Entry) (change : Change) :
    Except CryptoError Entry :=
  let attr := change.modification.type
  let values := change.modification.values
  match change.operation with
  | .add =>
    if isUserPassword attr then do
      return entry.addValues attr (← hashPasswordValues svc.toProvider draw values)
    else return entry.addValues attr values
  | .delete => return entry.deleteValues attr values
  | .replace =>
    if values.isEmpty then return entry.deleteValues attr []
    else if isUserPassword attr then do
      return entry.set attr (← hashPasswordValues svc.toProvider draw values)
    else return entry.set attr values

def applyChanges (svc : Service) (draw : Nat → Nat → Nat) (entry : Entry) (changes : List Change) :
    Except CryptoError Entry :=
  changes.zipIdx.foldlM (fun entry c => svc.applyChange (draw c.2) entry c.1) entry

def planModify (svc : Service) (draw : Nat → Nat → Nat) (store : Store) (req : ModifyRequest) :
    Except LdapResult (Dn × Entry) := do
  let dn ← svc.target req.object
  let entry ← svc.existing store dn
  let entry ← (svc.applyChanges draw entry req.changes).mapError passwordErrorResult
  validated entry
  return (dn, entry)

def handleModify (svc : Service) (draw : Nat → Nat → Nat) (store : Store) (req : ModifyRequest) :
    Update :=
  match svc.planModify draw store req with
  | .error result => .refused result store
  | .ok (dn, entry) => svc.put store dn entry

def newRdn (req : ModifyDnRequest) : Except LdapResult Rdn :=
  match Dn.parse req.newRdn with
  | .ok ⟨[rdn]⟩ => .ok rdn
  | _ => .error (.new .invalidDnSyntax "newrdn must be exactly one RDN")

def newParent (req : ModifyDnRequest) (oldDn : Dn) : Except LdapResult Dn :=
  match req.newSuperior with
  | some sup => (Dn.parse sup).mapError fun _ => .invalidDn
  | none => .ok (oldDn.parent.getD .root)

def newDnStr (req : ModifyDnRequest) (newParent : Dn) : Str :=
  if newParent.isEmpty then req.newRdn else req.newRdn ++ ',' :: newParent.display

def renamed (req : ModifyDnRequest) (newRdn oldRdn : Rdn) (entry : Entry) : Entry :=
  let entry := newRdn.avas.foldl (fun e a => e.addValues a.attr [a.value]) entry
  if req.deleteOldRdn then
    oldRdn.avas.foldl (fun e a =>
      if newRdn.avas.any fun b => b.attr == a.attr && b.value.eqIgnoreAsciiCase a.value then e
      else e.deleteValues a.attr [a.value]) entry
  else entry

def leaf (svc : Service) (store : Store) (dn : Dn) : Except LdapResult Unit :=
  match store.scanSubtree dn with
  | .ok rows =>
    if rows.length > 1 then
      .error (.new .notAllowedOnNonLeaf
        "moving a non-leaf entry (subtree rename) is not supported yet")
    else .ok ()
  | .error e => .error (svc.storeErrorResult e dn)

structure Move where
  oldDn : Dn
  newDn : Dn
  entry : Entry

def planModDn (svc : Service) (store : Store) (req : ModifyDnRequest) :
    Except LdapResult Move := do
  let oldDn ← (Dn.parse req.entry).mapError fun _ => .invalidDn
  let oldRdn ← require oldDn.rdns.head? .invalidDn
  match svc.referrals.proactiveReferral oldDn with
  | some result => .error result
  | none =>
    let rdn ← newRdn req
    let parent ← newParent req oldDn
    let newDn ← (Dn.parse (newDnStr req parent)).mapError fun _ => .invalidDn
    svc.leaf store oldDn
    let entry ← svc.existing store oldDn
    return ⟨oldDn, newDn, renamed req rdn oldRdn entry⟩

-- The new key is written before the old one is removed, in two transactions.
def move (svc : Service) (store : Store) (m : Move) : Update :=
  match store.putEntry m.newDn m.entry svc.indexSpec with
  | .error e => .refused (svc.storeErrorResult e m.newDn) store
  | .ok store₁ =>
    if m.oldDn.Same m.newDn then ⟨.success, store₁, [(m.newDn, some m.entry)]⟩
    else
      match store₁.deleteEntry m.oldDn svc.indexSpec with
      | .ok store₂ => ⟨.success, store₂, [(m.newDn, some m.entry), (m.oldDn, none)]⟩
      | .error e =>
        ⟨.operationsError ("entry moved to the new DN but the old DN could not be removed: " ++
          e.display svc.platform.debugStr), store₁, [(m.newDn, some m.entry)]⟩

def handleModDn (svc : Service) (store : Store) (req : ModifyDnRequest) : Update :=
  match svc.planModDn store req with
  | .error result => .refused result store
  | .ok m => svc.move store m

def resolvePasswordTarget (identity : Str) : Except LdapResult Dn :=
  (Dn.parse ((identity.stripPrefix "dn:").getD identity)).mapError fun _ =>
    .new .invalidDnSyntax "userIdentity is not a valid DN"

def principalFqnFor (entry : Entry) (realm : Str) : Option Str :=
  match Kdc.principalName entry with
  | .ok existing => some existing
  | .error _ =>
    (((entry.get "samaccountname").bind List.head?).or
      ((entry.get "cn").bind List.head?)).map fun name => name ++ '@' :: realm

def passwordEntry (svc : Service) (store : Store) (dn : Dn) : Except LdapResult Entry :=
  match store.getEntry dn with
  | .ok (some e) => .ok e
  | .ok none => .error .noSuchObject
  | .error e => .error (.operationsError (e.display svc.platform.debugStr))

def planPasswordModify (svc : Service) (draw : Nat) (store : Store) (requestValue : Option Bytes)
    (boundIdentity : Option Str) : Except LdapResult (Dn × Entry) := do
  ensure (svc.fips = true)
    (.unwilling "FIPS provider not active -- cannot set a Kerberos key")
  let bytes ← require requestValue (.new .protocolError "missing request value")
  let req ← (svc.decodePasswdModify bytes).mapError fun e =>
    .new .protocolError ("malformed PasswdModifyRequestValue: " ++ e)
  let newPasswd ← require req.newPasswd (.unwilling
    "server-generated passwords are not supported -- newPasswd is required")
  let identity ← require ((req.userIdentity.map Utf8.fromUtf8Lossy).or boundIdentity)
    (.new .protocolError "no userIdentity and no bound identity to fall back to")
  let dn ← resolvePasswordTarget identity
  let realm ← require (store.registry.iter.findSome? Partition.realm)
    (.new .other "no realm configured for this partition")
  let entry ← svc.passwordEntry store dn
  let principalFqn ← require (principalFqnFor entry realm) (.unwilling
    "entry has no sAMAccountName/cn to derive a principal name from")
  let entry ← (Kdc.setPassword svc.platform.cipher draw entry principalFqn newPasswd).mapError
    fun e => .operationsError (e.display svc.platform.debugStr)
  return (dn, entry)

def handlePasswordModify (svc : Service) (draw : Nat) (store : Store) (requestValue : Option Bytes)
    (boundIdentity : Option Str) : Update :=
  match svc.planPasswordModify draw store requestValue boundIdentity with
  | .error result => .refused result store
  | .ok (dn, entry) =>
    match store.putEntry dn entry svc.indexSpec with
    | .ok store' => ⟨.success, store', [(dn, some entry)]⟩
    | .error e => .refused (.operationsError (e.display svc.platform.debugStr)) store

end Service

inductive UpdateRequest
  | add (draw : Nat → Nat → Nat) (req : AddRequest)
  | delete (entry : Str)
  | modify (draw : Nat → Nat → Nat) (req : ModifyRequest)
  | modDn (req : ModifyDnRequest)
  | passwordModify (draw : Nat) (value : Option Bytes) (boundIdentity : Option Str)

def Service.handle (svc : Service) (store : Store) : UpdateRequest → Update
  | .add draw req => svc.handleAdd draw store req
  | .delete entry => svc.handleDelete store entry
  | .modify draw req => svc.handleModify draw store req
  | .modDn req => svc.handleModDn store req
  | .passwordModify draw value boundIdentity =>
    svc.handlePasswordModify draw store value boundIdentity

end IronDirectory.Ldap
