import IronDirectory.Defs.Kdc.App

namespace IronDirectory.Kdc.TgsExchange

open Base Crypto Kerberos Naming Storage Outcome

def paTgsReq : Int32 := 1

def apReq (P : Platform) (env : Env) (req : KdcReq) : Except Stop ApReq := do
  let realm := realmToString req.reqBody.realm
  let padata ← require req.padata (refuse env realm krbErrGeneric "TGS-REQ missing padata")
  let pa ← require (padata.find? fun p => p.type == paTgsReq)
    (refuse env realm krbErrGeneric "TGS-REQ missing PA-TGS-REQ")
  (P.der.apReq.decode pa.value).mapError fun e =>
    refuse env realm krbErrGeneric ("malformed AP-REQ: " ++ e)

def issuerPrincipal (ticket : Ticket) : Str :=
  principalFqn (principalNameToString ticket.sname) (realmToString ticket.realm)

def issuerKey (P : Platform) (env : Env) (app : AppState) (realm : Str) (ticket : Ticket) :
    Except Stop (Enctype × PrincipalKey) := do
  let issuer := issuerPrincipal ticket
  let dn ← require (app.findPrincipal issuer)
    (refuse env realm krbErrGeneric ("no key for ticket issuer " ++ issuer))
  let entry ← require (app.entryAt dn)
    (refuse env realm krbErrGeneric "ticket issuer principal entry missing")
  let ks ← keysOrStop P env realm krbErrGeneric entry
  let enctype ← require (Enctype.ofNumber ticket.encPart.etype)
    (refuse env realm krbErrGeneric "unsupported ticket etype")
  let key ← require (ks.find? fun k => k.enctype == enctype)
    (refuse env realm krbErrGeneric "ticket issuer has no matching key for this ticket's etype")
  return (enctype, key)

structure Presented where
  apReq : ApReq
  enctype : Enctype
  issuerKey : PrincipalKey
  tgt : EncTicketPart
  authenticator : Authenticator

def authenticate (P : Platform) (env : Env) (app : AppState) (req : KdcReq) :
    Except Stop Presented := do
  let realm := realmToString req.reqBody.realm
  let apReq ← apReq P env req
  let (enctype, key) ← issuerKey P env app realm apReq.ticket
  let tgtBytes ← (P.cipher.decrypt enctype key.key 2 apReq.ticket.encPart.cipher).mapError
    fun _ => refuse env realm krbApErrBadIntegrity "failed to decrypt ticket"
  let tgt ← (P.der.encTicketPart.decode tgtBytes).mapError fun e =>
    refuse env realm krbErrGeneric ("malformed EncTicketPart: " ++ e)
  let serverNow := (now (env.clock.reading 0)).1
  ensure (diffSeconds tgt.endTime serverNow ≤ 0)
    (refuse env realm krbApErrTktExpired "ticket expired")
  let authBytes ← (P.cipher.decrypt enctype tgt.key.value 7 apReq.authenticator.cipher).mapError
    fun _ => refuse env realm krbApErrBadIntegrity "failed to decrypt authenticator"
  let authenticator ← (P.der.authenticator.decode authBytes).mapError fun e =>
    refuse env realm krbErrGeneric ("malformed Authenticator: " ++ e)
  ensure (authenticator.crealm = tgt.crealm ∧ authenticator.cname = tgt.cname)
    (refuse env realm krbApErrBadmatch "authenticator does not match ticket")
  ensure ((diffSeconds authenticator.ctime serverNow).natAbs ≤ clockSkewSecs)
    (refuse env realm krbApErrSkew "clock skew too great")
  return ⟨apReq, enctype, key, tgt, authenticator⟩

def replyKey (p : Presented) : Bytes × Enctype × UInt32 :=
  match p.authenticator.subkey with
  | none => (p.tgt.key.value, p.enctype, 8)
  | some sk =>
    match Enctype.ofNumber sk.type with
    | some enctype => (sk.value, enctype, 9)
    | none => (p.tgt.key.value, p.enctype, 8)

structure Grant where
  key : PrincipalKey
  sessionKey : Bytes
  srealm : Realm
  sname : PrincipalName
  endTime : KerberosTime
  authorizationData : Option AuthorizationData

def Grant.part (g : Grant) (tgt : EncTicketPart) : EncTicketPart where
  flags := reservedFlags
  key := ⟨g.key.enctype.etypeNumber, g.sessionKey⟩
  crealm := tgt.crealm
  cname := tgt.cname
  transited := ⟨0, []⟩
  authTime := tgt.authTime
  startTime := none
  endTime := g.endTime
  renewTill := none
  caddr := none
  authorizationData := g.authorizationData

def Grant.repPart (g : Grant) (tgt : EncTicketPart) (nonce : UInt32) : EncKdcRepPart where
  key := ⟨g.key.enctype.etypeNumber, g.sessionKey⟩
  lastReq := []
  nonce := nonce
  keyExpiration := none
  flags := reservedFlags
  authTime := tgt.authTime
  startTime := none
  endTime := g.endTime
  renewTill := none
  srealm := g.srealm
  sname := g.sname
  caddr := none
  encryptedPaData := none

abbrev SealError := Str

/-- Seals a grant and the reply that carries it.  `draw` numbers the context
and the two encryptions. -/
def Grant.seal (P : Platform) (g : Grant) (p : Presented) (nonce : UInt32) (draw : Nat → Nat) :
    Except SealError Issued := do
  let partBytes ← P.der.encTicketPart.encode (g.part p.tgt)
  (P.cipher.newContext (draw 0)).mapError CryptoError.display
  let ticketCipher ←
    (P.cipher.encrypt (draw 1) g.key.enctype g.key.key 2 partBytes).mapError CryptoError.display
  let ticket : Ticket :=
    ⟨5, g.srealm, g.sname, ⟨g.key.enctype.etypeNumber, some g.key.kvno, ticketCipher⟩⟩
  let repBytes ← P.der.encTgsRepPart.encode (g.repPart p.tgt nonce)
  let (key, enctype, usage) := replyKey p
  let repCipher ← (P.cipher.encrypt (draw 2) enctype key usage repBytes).mapError CryptoError.display
  return ⟨g.part p.tgt, g.key, 5, 13, none, p.tgt.crealm, p.tgt.cname, ticket,
    ⟨enctype.etypeNumber, none, repCipher⟩⟩

def endTime (env : Env) (i : Nat) (tgt : EncTicketPart) : KerberosTime :=
  plusSeconds (env.clock.reading (i + 1))
    (min ticketLifetimeSecs (diffSeconds (now (env.clock.reading i)).1 tgt.endTime))

def isOneHopNeighbor (app : AppState) (target : Str) : Bool :=
  match app.topology, app.ownPartitionId with
  | some topology, some ownId =>
    (topology.superiorOf ownId).any (fun p => p.realm == some target) ||
      (topology.subordinatesOf ownId).any fun p => p.realm == some target
  | _, _ => false

def referralKey (app : AppState) (target : Str) (enctype : Enctype) :
    Except Stop (Option PrincipalKey) :=
  match (app.findPrincipal (principalFqn ("krbtgt/" ++ target) app.realm)).bind app.entryAt with
  | none => .ok none
  | some entry =>
    match keys entry with
    | .ok ks => .ok ((ks.find? fun k => k.enctype == enctype).or ks.head?)
    | .error (.error _) => .ok none
    | .error .panic => .error .panic

def referralTicket (P : Platform) (env : Env) (app : AppState) (req : KdcReq) (p : Presented)
    (target : Str) (key : PrincipalKey) : Option Issued := do
  let sessionKey ← (P.cipher.randomBytes (env.draw 0) key.enctype.keyLen).toOption
  let grant : Grant :=
    ⟨key, sessionKey, stringToGstring app.realm, krbtgtPrincipalName target, endTime env 1 p.tgt, none⟩
  (grant.seal P p req.reqBody.nonce fun i => env.draw (i + 1)).toOption

def referralTgsRep (P : Platform) (env : Env) (app : AppState) (req : KdcReq) (p : Presented) :
    Except Stop (Option Issued) :=
  let target := (realmToString req.reqBody.realm).asciiUpper
  if isOneHopNeighbor app target then do
    let key ← referralKey app target p.enctype
    return key.bind (referralTicket P env app req p target)
  else .ok none

def keyPrincipal (sname : PrincipalName) (realm : Str) : Str :=
  if isChangepw sname then principalFqn ("krbtgt/" ++ realm) realm
  else principalFqn (principalNameToString sname) realm

def selectKey (ks : List PrincipalKey) (etypes : List Int32) : Option PrincipalKey :=
  (ks.find? fun k => etypes.contains k.enctype.etypeNumber).or ks.head?

def clientPac (app : AppState) (realm : Str) (tgt : EncTicketPart) : Option Pac.PacContext := do
  let principal := principalFqn (principalNameToString tgt.cname) (realmToString tgt.crealm)
  let dn ← app.findPrincipal principal
  let entry ← app.entryAt dn
  Pac.gatherContext app.store app.baseDn app.topology realm dn entry

def authorizationData (P : Platform) (app : AppState) (realm : Str) (p : Presented)
    (key : PrincipalKey) : Option AuthorizationData :=
  (clientPac app realm p.tgt).bind fun ctx =>
    (Pac.generate P.cipher (ctx.asInput (timestamp p.tgt.authTime)) key.key key.enctype
      p.issuerKey.key p.issuerKey.enctype).toOption.bind (wrapPacAuthorizationData P)

def serviceTgsRep (P : Platform) (env : Env) (app : AppState) (req : KdcReq) (p : Presented) :
    Except Stop Issued := do
  let realm := realmToString req.reqBody.realm
  let generic := fun text => refuse env realm krbErrGeneric text
  let sname ← require req.reqBody.sname
    (refuse env realm kdcErrSPrincipalUnknown "no server name in request")
  let unknown := refuse env realm kdcErrSPrincipalUnknown
    ("no such principal " ++ principalFqn (principalNameToString sname) realm)
  let dn ← require (app.findPrincipal (keyPrincipal sname realm)) unknown
  let entry ← require (app.entryAt dn) unknown
  let ks ← keysOrStop P env realm krbErrGeneric entry
  let key ← require (selectKey ks req.reqBody.etype) (generic "service principal has no keys")
  let sessionKey ← (P.cipher.randomBytes (env.draw 4) key.enctype.keyLen).mapError
    fun e => generic e.display
  let grant : Grant :=
    ⟨key, sessionKey, req.reqBody.realm, sname, endTime env 3 p.tgt,
      authorizationData P app realm p key⟩
  (grant.seal P p req.reqBody.nonce fun i => env.draw (i + 5)).mapError generic

def referral (P : Platform) (env : Env) (app : AppState) (req : KdcReq) (p : Presented) :
    Except Stop (Option Issued) :=
  if (realmToString req.reqBody.realm).asciiUpper ≠ app.realm.asciiUpper then
    referralTgsRep P env app req p
  else .ok none

def exchange (P : Platform) (env : Env) (app : AppState) (req : KdcReq) : Except Stop Issued := do
  let p ← authenticate P env app req
  match ← referral P env app req p with
  | some issued => return issued
  | none => serviceTgsRep P env app req p

def handle (P : Platform) (env : Env) (app : AppState) (req : KdcReq) : Option KdcResponse :=
  respond .tgsRep ((exchange P env app req).map Issued.rep)

end IronDirectory.Kdc.TgsExchange
