import IronDirectory.Defs.Kdc.App

namespace IronDirectory.Kdc.Kpasswd

open Base Crypto Kerberos Naming Storage Outcome

def versionChange : UInt16 := 1

def versionSet : UInt16 := 0xff80

inductive ResultCode
  | success
  | malformed
  | hardError
  | authError
  | softError
  | accessDenied
  | badVersion
  | initialFlagNeeded
  deriving DecidableEq

def ResultCode.number : ResultCode → UInt16
  | success => 0
  | malformed => 1
  | hardError => 2
  | authError => 3
  | softError => 4
  | accessDenied => 5
  | badVersion => 6
  | initialFlagNeeded => 7

def usageKrbPriv : UInt32 := 13

def usageApRep : UInt32 := 12

def usageApReqAuth : UInt32 := 11

def usageTicket : UInt32 := 2

def administratorRid : UInt32 := 500

def domainAdminsRid : UInt32 := 512

structure Refusal where
  code : ResultCode
  text : Str

structure Authenticated where
  client : Str
  clientRealm : Str
  initial : Bool
  ticketSessionKey : Bytes
  ticketEnctype : Enctype
  privKey : Bytes
  privEnctype : Enctype
  authenticator : Authenticator

structure Request where
  version : UInt16
  apReq : ApReq
  priv : KrbPriv

def parse (P : Platform) (request : Bytes) : Except Refusal Request := do
  ensure (6 ≤ request.length) ⟨.malformed, "request shorter than its header"⟩
  let msgLen := Bytes.ofBe (request.take 2)
  let version := UInt16.ofNat (Bytes.ofBe ((request.drop 2).take 2))
  let apReqLen := Bytes.ofBe ((request.drop 4).take 2)
  ensure (msgLen = request.length ∧ 6 + apReqLen ≤ request.length)
    ⟨.malformed, "length fields don't match the request"⟩
  ensure (version = versionChange ∨ version = versionSet)
    ⟨.badVersion, "unsupported protocol version 0x" ++ Bytes.toHex (Bytes.be 2 version.toNat)⟩
  let apReq ← (P.der.apReq.decode ((request.drop 6).take apReqLen)).mapError fun e =>
    ⟨.malformed, "malformed AP-REQ: " ++ e⟩
  let priv ← (P.der.krbPriv.decode (request.drop (6 + apReqLen))).mapError fun e =>
    ⟨.malformed, "malformed KRB-PRIV: " ++ e⟩
  return ⟨version, apReq, priv⟩

def krbtgtKey (app : AppState) (enctype : Enctype) : Except (Fault Refusal) PrincipalKey := do
  let dn ← require (app.findPrincipal (principalFqn ("krbtgt/" ++ app.realm) app.realm))
    (.error ⟨.hardError, "krbtgt principal not provisioned"⟩)
  let entry ← require (app.entryAt dn) (.error ⟨.hardError, "krbtgt entry missing"⟩)
  (keyForEnctype entry enctype).mapError fun
    | .error _ => .error ⟨.authError, "no krbtgt key for the ticket's enctype"⟩
    | .panic => .panic

def privKey (ticket : EncTicketPart) (enctype : Enctype) (authenticator : Authenticator) :
    Except (Fault Refusal) (Bytes × Enctype) :=
  match authenticator.subkey with
  | none => .ok (ticket.key.value, enctype)
  | some sk => do
    let e ← require (Enctype.ofNumber sk.type)
      (.error ⟨.authError, "unsupported subkey enctype"⟩)
    return (sk.value, e)

def verifyApReq (P : Platform) (env : Env) (app : AppState) (apReq : ApReq) :
    Except (Fault Refusal) Authenticated := do
  let auth := fun text => Fault.error (Refusal.mk .authError text)
  let sname := principalNameToString apReq.ticket.sname
  let realm := realmToString apReq.ticket.realm
  ensure (isChangepw apReq.ticket.sname ∧ realm.eqIgnoreAsciiCase app.realm)
    (auth ("ticket is for " ++ principalFqn sname realm ++ ", not kadmin/changepw@" ++ app.realm))
  let enctype ← require (Enctype.ofNumber apReq.ticket.encPart.etype)
    (auth "unsupported ticket enctype")
  let key ← krbtgtKey app enctype
  let ticketBytes ←
    (P.cipher.decrypt enctype key.key usageTicket apReq.ticket.encPart.cipher).mapError
      fun _ => auth "ticket does not decrypt"
  let ticket ← (P.der.encTicketPart.decode ticketBytes).mapError fun e =>
    auth ("malformed ticket: " ++ e)
  let serverNow := (now (env.clock.reading 0)).1
  ensure (diffSeconds ticket.endTime serverNow ≤ 0) (auth "ticket expired")
  let authBytes ←
    (P.cipher.decrypt enctype ticket.key.value usageApReqAuth apReq.authenticator.cipher).mapError
      fun _ => auth "authenticator does not decrypt"
  let authenticator ← (P.der.authenticator.decode authBytes).mapError fun e =>
    auth ("malformed authenticator: " ++ e)
  ensure (authenticator.cname = ticket.cname ∧ authenticator.crealm = ticket.crealm)
    (auth "authenticator does not match the ticket")
  ensure ((diffSeconds authenticator.ctime serverNow).natAbs ≤ clockSkewSecs)
    (auth "clock skew too great")
  let (key, privEnctype) ← privKey ticket enctype authenticator
  return ⟨principalNameToString ticket.cname, realmToString ticket.crealm,
    hasFlag ticket.flags flagInitial, ticket.key.value, enctype, key, privEnctype, authenticator⟩

def openPriv (P : Platform) (auth : Authenticated) (msg : KrbPriv) : Except Refusal Bytes := do
  let enctype := (Enctype.ofNumber msg.encPart.etype).getD auth.privEnctype
  let plain ← (P.cipher.decrypt enctype auth.privKey usageKrbPriv msg.encPart.cipher).mapError
    fun _ => ⟨.authError, "KRB-PRIV does not decrypt under the authenticator's key"⟩
  let part ← (P.der.encKrbPrivPart.decode plain).mapError fun e =>
    ⟨.malformed, "malformed KRB-PRIV body: " ++ e⟩
  return part.userData

structure Change where
  newPassword : Bytes
  targetName : Option Str
  targetRealm : Option Str

def parseChange (P : Platform) (version : UInt16) (userData : Bytes) : Except Refusal Change :=
  if version = versionChange then .ok ⟨userData, none, none⟩
  else do
    let d ← (P.der.chgPwdData.decode userData).mapError fun e =>
      ⟨.malformed, "malformed ChgPwdData: " ++ e⟩
    return ⟨d.newpasswd, d.targname.map principalNameToString, d.targrealm.map realmToString⟩

def findTargetIn (P : Platform) (app : AppState) (principal : Str) :
    List (Str × Str) → Except Refusal Dn
  | [] => .error ⟨.hardError, "no such principal " ++ principal⟩
  | (attr, value) :: rest =>
    match app.store.lookupByIndex app.baseDn attr value with
    | .ok [] => findTargetIn P app principal rest
    | .ok [dn] => .ok dn
    | .ok dns => .error ⟨.hardError, Str.ofNat dns.length ++ " entries are named " ++ value⟩
    | .error e => .error ⟨.hardError, e.display P.debugStr⟩

def findTarget (P : Platform) (app : AppState) (name principal : Str) : Except Refusal Dn :=
  findTargetIn P app principal [(attrPrincipalName, principal), ("samaccountname", name)]

def rid (entry : Entry) : Option UInt32 := entry.objectSid.bind Sid.rid

def isDomainAdmin (app : AppState) (principal : Str) : Bool :=
  match app.findPrincipal principal with
  | none => false
  | some dn =>
    match app.entryAt dn with
    | none => false
    | some entry =>
      rid entry == some administratorRid ||
        (Pac.groupRids app.store app.baseDn dn).contains domainAdminsRid

def isSelf (app : AppState) (auth : Authenticated) (targetName : Str) : Bool :=
  targetName.eqIgnoreAsciiCase auth.client && auth.clientRealm.eqIgnoreAsciiCase app.realm

def authorize (app : AppState) (auth : Authenticated) (targetName target : Str) :
    Except Refusal PUnit :=
  let requester := principalFqn auth.client auth.clientRealm
  if isSelf app auth targetName then
    ensure (auth.initial = true) ⟨.initialFlagNeeded,
      "changing your own password needs a ticket from a fresh password (INITIAL)"⟩
  else
    ensure (isDomainAdmin app requester = true)
      ⟨.accessDenied, requester ++ " may not set the password of " ++ target⟩

structure Changed where
  dn : Dn
  principal : Str
  store : Store

def change (P : Platform) (env : Env) (app : AppState) (auth : Authenticated) (version : UInt16)
    (userData : Bytes) : Except Refusal Changed := do
  let c ← parseChange P version userData
  let targetRealm := c.targetRealm.getD auth.clientRealm
  ensure (targetRealm.eqIgnoreAsciiCase app.realm)
    ⟨.hardError, "target realm " ++ targetRealm ++ " is not served here"⟩
  let targetName := c.targetName.getD auth.client
  let target := principalFqn targetName app.realm
  authorize app auth targetName target
  let dn ← findTarget P app targetName target
  let hard := fun e : StoreError => Refusal.mk .hardError (e.display P.debugStr)
  let found ← (app.store.getEntry dn).mapError hard
  let entry ← require found ⟨.hardError, dn.display ++ " vanished"⟩
  let principal := ((principalName entry).toOption).getD target
  ensure (8 ≤ c.newPassword.length) ⟨.softError, "password must be at least 8 characters"⟩
  let entry ← (setPassword P.cipher (env.draw 1) entry principal c.newPassword).mapError
    fun e => ⟨.softError, e.display P.debugStr⟩
  let store ← (app.store.putEntry dn entry app.indexSpec).mapError hard
  return ⟨dn, principal, store⟩

def serverSeq (P : Platform) (env : Env) : UInt32 :=
  match P.cipher.randomBytes (env.draw 0) 4 with
  | .ok b => UInt32.ofNat (Bytes.ofBe (b.take 4)) &&& 0x3fffffff
  | .error _ => 1

inductive IpAddr
  | v4 (octets : Vector UInt8 4)
  | v6 (octets : Vector UInt8 16)

def hostAddress : IpAddr → HostAddress
  | .v4 o => ⟨2, o.toList⟩
  | .v6 o => ⟨24, o.toList⟩

def resultData (code : ResultCode) (text : Str) : Bytes :=
  Bytes.be 2 code.number.toNat ++ text.toUtf8

-- The lengths are cut to 16 bits.
def frame (apRep body : Bytes) : Bytes :=
  Bytes.be 2 (6 + apRep.length + body.length) ++ Bytes.be 2 versionChange.toNat ++
    Bytes.be 2 apRep.length ++ apRep ++ body

def sealedReply (P : Platform) (env : Env) (auth : Authenticated) (seq : UInt32) (addr : IpAddr)
    (code : ResultCode) (text : Str) : Except Str Bytes := do
  let repBytes ← P.der.encApRepPart.encode
    ⟨auth.authenticator.ctime, auth.authenticator.cusec, none, some seq⟩
  let repCipher ← (P.cipher.encrypt (env.draw 2) auth.ticketEnctype auth.ticketSessionKey usageApRep
    repBytes).mapError CryptoError.display
  let apRepBytes ← P.der.apRep.encode ⟨5, 15, auth.ticketEnctype.etypeNumber, none, repCipher⟩
  let (timestamp, usec) := now (env.clock.reading 1)
  let privBytes ← P.der.encKrbPrivPart.encode
    ⟨resultData code text, some timestamp, some usec, some seq, some (hostAddress addr), none⟩
  let privCipher ← (P.cipher.encrypt (env.draw 3) auth.privEnctype auth.privKey usageKrbPriv
    privBytes).mapError CryptoError.display
  let privMsg ← P.der.krbPriv.encode ⟨5, 21, auth.privEnctype.etypeNumber, none, privCipher⟩
  return frame apRepBytes privMsg

def errorReply (P : Platform) (env : Env) (app : AppState) (r : Refusal) : Bytes :=
  let err := buildError (env.clock.reading 9) krbErrGeneric app.realm
    (stringToPrincipalName "kadmin/changepw") (some r.text) (some (resultData r.code r.text))
  frame [] ((P.der.krbError.encode err).toOption.getD [])

/-- Everything before the reply: a refusal that is sent unsealed, or the
authenticated client and what became of its request. -/
def process (P : Platform) (env : Env) (app : AppState) (request : Bytes) :
    Except (Fault Refusal) (Authenticated × Except Refusal Changed) := do
  let r ← (parse P request).mapError .error
  let auth ← verifyApReq P env app r.apReq
  return (auth, openPriv P auth r.priv >>= change P env app auth r.version)

def result : Except Refusal Changed → ResultCode × Str
  | .ok _ => (.success, "Password changed")
  | .error r => (r.code, r.text)

/-- The reply, none when the request panicked, and the store after it. -/
def handle (P : Platform) (env : Env) (app : AppState) (request : Bytes) (addr : IpAddr) :
    Option Bytes × Store :=
  match process P env app request with
  | .error .panic => (none, app.store)
  | .error (.error r) => (some (errorReply P env app r), app.store)
  | .ok (auth, outcome) =>
    let (code, text) := result outcome
    let reply :=
      match sealedReply P env auth (serverSeq P env) addr code text with
      | .ok b => b
      | .error e => errorReply P env app ⟨.hardError, e⟩
    (some reply, (outcome.toOption.map Changed.store).getD app.store)

end IronDirectory.Kdc.Kpasswd
