import IronDirectory.Defs.Kdc.App

namespace IronDirectory.Kdc.AsExchange

open Base Crypto Kerberos Naming Storage Outcome

def paEncTimestamp : Int32 := 2

def paEtypeInfo2 : Int32 := 19

def ticketSname (req : KdcReq) : PrincipalName :=
  match req.reqBody.sname with
  | some s => if isChangepw s then s else krbtgtPrincipalName (realmToString req.reqBody.realm)
  | none => krbtgtPrincipalName (realmToString req.reqBody.realm)

structure Client where
  cname : PrincipalName
  dn : Dn
  entry : Entry
  enctype : Enctype
  key : PrincipalKey

def preauthRequired (P : Platform) (env : Env) (realm : Str) (ks : List PrincipalKey)
    (salt : Bytes) : Stop :=
  let etypeInfo2 := ks.filterMap fun k =>
    (GeneralString.fromBytes salt).map fun s => ⟨k.enctype.etypeNumber, some s, none⟩
  let eData :=
    match P.der.etypeInfo2.encode etypeInfo2 with
    | .error _ => none
    | .ok encoded =>
      (P.der.methodData.encode [⟨paEncTimestamp, []⟩, ⟨paEtypeInfo2, encoded⟩]).toOption
  .refuse (buildError (env.clock.reading 9) kdcErrPreauthRequired realm (krbtgtPrincipalName realm)
    (some "additional pre-authentication required") eData)

def lookupClient (P : Platform) (env : Env) (app : AppState) (realm principal : Str) :
    Except Stop (Dn × Entry) := do
  let unknown := refuse env realm kdcErrCPrincipalUnknown ("no such principal " ++ principal)
  let storeFailed := fun e : StoreError => refuse env realm krbErrGeneric (e.display P.debugStr)
  let dns ← (app.store.lookupByIndex app.baseDn attrPrincipalName principal).mapError storeFailed
  let dn ← require (single (.ok dns)) unknown
  let entry ← (app.store.getEntry dn).mapError storeFailed
  let entry ← require entry unknown
  return (dn, entry)

def authenticate (P : Platform) (env : Env) (app : AppState) (req : KdcReq) :
    Except Stop Client := do
  let realm := realmToString req.reqBody.realm
  let cname ← require req.reqBody.cname
    (refuse env realm kdcErrCPrincipalUnknown "no client name in request")
  let principal := principalFqn (principalNameToString cname) realm
  let (dn, entry) ← lookupClient P env app realm principal
  let clientKeys ← keysOrStop P env realm kdcErrCPrincipalUnknown entry
  let clientSalt ← (salt entry).mapError fun e =>
    refuse env realm kdcErrCPrincipalUnknown (e.display P.debugStr)
  let pa ← require ((req.padata.getD []).find? fun p => p.type == paEncTimestamp)
    (preauthRequired P env realm clientKeys clientSalt)
  let encData ← (P.der.encryptedData.decode pa.value).mapError fun e =>
    refuse env realm kdcErrPreauthFailed ("malformed PA-ENC-TIMESTAMP: " ++ e)
  let enctype ← require (Enctype.ofNumber encData.etype)
    (refuse env realm kdcErrEtypeNosupp "unsupported PA-ENC-TIMESTAMP etype")
  let clientKey ← require (clientKeys.find? fun k => k.enctype == enctype)
    (refuse env realm kdcErrPreauthFailed "no key for the etype used in PA-ENC-TIMESTAMP")
  let tsPlain ← (P.cipher.decrypt enctype clientKey.key 1 encData.cipher).mapError fun _ =>
    refuse env realm kdcErrPreauthFailed "PA-ENC-TIMESTAMP decryption failed (wrong password)"
  let ts ← (P.der.paEncTsEnc.decode tsPlain).mapError fun e =>
    refuse env realm kdcErrPreauthFailed ("malformed PA-ENC-TS-ENC: " ++ e)
  let serverNow := (now (env.clock.reading 0)).1
  ensure ((diffSeconds serverNow ts.patimestamp).natAbs ≤ clockSkewSecs)
    (refuse env realm krbApErrSkew "clock skew too great")
  return ⟨cname, dn, entry, enctype, clientKey⟩

def sealingKey (P : Platform) (env : Env) (app : AppState) (req : KdcReq) (enctype : Enctype) :
    Except Stop PrincipalKey := do
  let realm := realmToString req.reqBody.realm
  let principal := principalFqn (principalNameToString (krbtgtPrincipalName realm)) realm
  let dn ← require (app.findPrincipal principal)
    (refuse env realm krbErrGeneric "krbtgt principal not provisioned for this realm")
  let entry ← require (app.entryAt dn)
    (refuse env realm krbErrGeneric "krbtgt principal entry missing")
  let ks ← keysOrStop P env realm krbErrGeneric entry
  require ((ks.find? fun k => k.enctype == enctype).or ks.head?)
    (refuse env realm krbErrGeneric "krbtgt has no keys")

def ticketPart (P : Platform) (env : Env) (app : AppState) (req : KdcReq) (client : Client)
    (key : PrincipalKey) (sessionKey : Bytes) : EncTicketPart :=
  let realm := realmToString req.reqBody.realm
  let authTime := (now (env.clock.reading 1)).1
  let pacContext :=
    Pac.gatherContext app.store app.baseDn app.topology realm client.dn client.entry
  { flags := ticketFlags [flagInitial, flagPreAuthent]
    key := ⟨client.enctype.etypeNumber, sessionKey⟩
    crealm := req.reqBody.realm
    cname := client.cname
    transited := ⟨0, []⟩
    authTime := authTime
    startTime := none
    endTime := plusSeconds (env.clock.reading 2)
      (if isChangepw (ticketSname req) then 300 else ticketLifetimeSecs)
    renewTill := none
    caddr := none
    authorizationData := pacContext.bind fun ctx =>
      (Pac.generate P.cipher (ctx.asInput (timestamp authTime)) key.key key.enctype key.key
        key.enctype).toOption.bind (wrapPacAuthorizationData P) }

def issue (P : Platform) (env : Env) (app : AppState) (req : KdcReq) : Except Stop Issued := do
  let realm := realmToString req.reqBody.realm
  let generic := fun text => refuse env realm krbErrGeneric text
  let crypto := fun e : CryptoError => generic e.display
  let client ← authenticate P env app req
  let key ← sealingKey P env app req client.enctype
  let sessionKey ← (P.cipher.randomBytes (env.draw 0) client.enctype.keyLen).mapError crypto
  let part := ticketPart P env app req client key sessionKey
  let partBytes ← (P.der.encTicketPart.encode part).mapError generic
  (P.cipher.newContext (env.draw 1)).mapError crypto
  let ticketCipher ←
    (P.cipher.encrypt (env.draw 2) key.enctype key.key 2 partBytes).mapError crypto
  let ticket : Ticket :=
    ⟨5, req.reqBody.realm, ticketSname req, ⟨key.enctype.etypeNumber, some key.kvno, ticketCipher⟩⟩
  let repPart : EncKdcRepPart :=
    { key := part.key, lastReq := [], nonce := req.reqBody.nonce, keyExpiration := none,
      flags := part.flags, authTime := part.authTime, startTime := none, endTime := part.endTime,
      renewTill := none, srealm := req.reqBody.realm, sname := ticketSname req, caddr := none,
      encryptedPaData := none }
  let repBytes ← (P.der.encAsRepPart.encode repPart).mapError generic
  let repCipher ←
    (P.cipher.encrypt (env.draw 3) client.enctype client.key.key 3 repBytes).mapError crypto
  return ⟨part, key, 5, 11, none, req.reqBody.realm, client.cname, ticket,
    ⟨client.enctype.etypeNumber, some client.key.kvno, repCipher⟩⟩

def handle (P : Platform) (env : Env) (app : AppState) (req : KdcReq) : Option KdcResponse :=
  respond .asRep ((issue P env app req).map Issued.rep)

end IronDirectory.Kdc.AsExchange
