import IronDirectory.Defs.Ldap.Gssapi

namespace IronDirectory.Ldap

open Base Crypto Kerberos Naming Storage Kdc Outcome

inductive ResultCode
  | success
  | operationsError
  | protocolError
  | sizeLimitExceeded
  | compareFalse
  | compareTrue
  | authMethodNotSupported
  | referral
  | saslBindInProgress
  | constraintViolation
  | noSuchObject
  | invalidDnSyntax
  | invalidCredentials
  | unwillingToPerform
  | objectClassViolation
  | notAllowedOnNonLeaf
  | other
  deriving DecidableEq

inductive AuthenticationChoice
  | simple (password : Bytes)
  | sasl (mechanism : Str) (credentials : Option Bytes)
  | unrecognized
  deriving DecidableEq

structure BindRequest where
  version : Nat
  name : Str
  authentication : AuthenticationChoice

structure BindResponse where
  resultCode : ResultCode
  diagnosticMessage : Str
  serverSaslCreds : Option Bytes

abbrev Derive := Bytes → Bytes → Nat → Except CryptoError Bytes

def hashLen : Nat := 32

def verifyPassword (derive : Derive) (password : Bytes) (stored : Str) :
    Except (Fault CryptoError) Bool :=
  match stored.splitOn '$' with
  | [[], scheme, iterations, saltHex, hashHex] =>
    if scheme ≠ "pbkdf2-sha256" then .ok false
    else
      match Str.unsigned? (2 ^ 64) iterations with
      | none => .ok false
      | some n =>
        match fromHex saltHex, fromHex hashHex with
        | .error .panic, _ => .error .panic
        | _, .error .panic => .error .panic
        | .ok salt, .ok expected =>
          if expected.length ≠ hashLen then .ok false
          else do
            let computed ← (derive password salt n).mapError .error
            return computed == expected
        | _, _ => .ok false
  | _ => .ok false

def userPasswordAttr : Str := "userpassword"

def storedPassword (store : Store) (name : Str) : Option Str := do
  let dn ← (Dn.parse name).toOption
  let entry ← Kdc.present (store.getEntry dn)
  let values ← entry.get userPasswordAttr
  values.head?

structure Provider where
  platform : Platform
  derive : Derive
  fips : Bool

/-- None when the password check panics. -/
def authenticateSimple (p : Provider) (store : Store) (name : Str) (password : Bytes) :
    Option ResultCode :=
  if p.fips then
    match storedPassword store name with
    | none => some .invalidCredentials
    | some stored =>
      match verifyPassword p.derive password stored with
      | .ok true => some .success
      | .error .panic => none
      | _ => some .invalidCredentials
  else some .invalidCredentials

structure WrapToken (c : Cipher) where
  sessionKey : Bytes
  enctype : Enctype
  isSealed : Bool
  seq : UInt64
  plain : Bytes
  bytes : Bytes
  valid : ∃ draw, Gssapi.wrap c draw enctype sessionKey 22 isSealed seq plain = .ok bytes

def wrapToken (c : Cipher) (draw : Nat) (enctype : Enctype) (sessionKey : Bytes) (isSealed : Bool)
    (seq : UInt64) (plain : Bytes) : Except Gssapi.WrapError (WrapToken c) :=
  match h : Gssapi.wrap c draw enctype sessionKey 22 isSealed seq plain with
  | .ok bytes => .ok ⟨sessionKey, enctype, isSealed, seq, plain, bytes, draw, h⟩
  | .error e => .error e

structure Context where
  sessionKey : Bytes
  enctype : Enctype
  clientPrincipal : Str
  deriving DecidableEq

inductive SaslState
  | none
  | awaitingApRepAck (ctx : Context)
  | awaitingSecurityLayerAck (ctx : Context)
  | securityLayerActive (sessionKey : Bytes) (enctype : Enctype) (isSealed : Bool)
    (sendSeq : UInt64)
  deriving DecidableEq

def offeredLayers : Bytes := [0x07, 0xFF, 0xFF, 0xFF]

def securityLayerChallenge (c : Cipher) (draw : Nat) (ctx : Context) :
    Except Gssapi.WrapError (WrapToken c) :=
  wrapToken c draw ctx.enctype ctx.sessionKey false 0 offeredLayers

/-- What a bind did: its answer, the identity it establishes, the state it
leaves, and the context and challenge it made. -/
structure BindOutcome (c : Cipher) where
  response : BindResponse
  identity : Option Str
  sasl : SaslState
  accepted : Option Context
  challenge : Option (WrapToken c)

namespace BindOutcome

variable {c : Cipher}

def answered (code : ResultCode) (text : Str) (sasl : SaslState) : BindOutcome c :=
  ⟨⟨code, text, none⟩, none, sasl, none, none⟩

def challenged (c : Cipher) (draw : Nat) (ctx : Context) (accepted : Option Context) :
    BindOutcome c :=
  match securityLayerChallenge c draw ctx with
  | .ok w =>
    ⟨⟨.saslBindInProgress, "", some w.bytes⟩, none, .awaitingSecurityLayerAck ctx, accepted, some w⟩
  | .error e => ⟨⟨.operationsError, e.display, none⟩, none, .none, accepted, none⟩

def bound (ctx : Context) (sasl : SaslState) : BindOutcome c :=
  ⟨⟨.success, "", none⟩, some ("u:" ++ ctx.clientPrincipal), sasl, none, none⟩

end BindOutcome

def acceptContext (p : Provider) (env : Env) (store : Store) (credentials : Option Bytes) :
    Option (BindOutcome p.platform.cipher) :=
  match credentials with
  | none =>
    some (.answered .authMethodNotSupported "GSSAPI bind requires an initial token" .none)
  | some inputToken =>
    match store.registry.iter.head? with
    | none => some (.answered .other "no partition configured" .none)
    | some partition =>
      match Gssapi.accept p.platform env inputToken
          (Gssapi.lookupKeys store partition.baseDn) with
      | .error .panic => none
      | .error (.error e) => some (.answered .invalidCredentials e.display .none)
      | .ok a =>
        let ctx : Context := ⟨a.sessionKey, a.enctype, a.clientPrincipal⟩
        match a.outputToken with
        | some tok =>
          some ⟨⟨.saslBindInProgress, "", some tok⟩, none, .awaitingApRepAck ctx, some ctx, none⟩
        | none => some (.challenged _ (env.draw 1) ctx (some ctx))

def finishContext (p : Provider) (ctx : Context) (credentials : Option Bytes) :
    BindOutcome p.platform.cipher :=
  match credentials with
  | none => .answered .protocolError "missing security-layer response" .none
  | some response =>
    match Gssapi.unwrap p.platform.cipher ctx.enctype ctx.sessionKey 24 response with
    | .error e => .answered .invalidCredentials e.display .none
    | .ok plain =>
      if plain.head? = some 0x01 then .bound ctx .none
      else if plain.head? = some 0x02 then
        .bound ctx (.securityLayerActive ctx.sessionKey ctx.enctype false 1)
      else if plain.head? = some 0x04 then
        .bound ctx (.securityLayerActive ctx.sessionKey ctx.enctype true 1)
      else .answered .unwillingToPerform "client selected an unsupported security layer" .none

def handleSaslBind (p : Provider) (env : Env) (store : Store) (mechanism : Str)
    (credentials : Option Bytes) (sasl : SaslState) : Option (BindOutcome p.platform.cipher) :=
  if mechanism ≠ "GSSAPI" then
    some (.answered .authMethodNotSupported "only the GSSAPI SASL mechanism is supported" .none)
  else if p.fips = false then
    some (.answered .unwillingToPerform
      "FIPS provider not active -- SASL/GSSAPI unavailable" .none)
  else
    match sasl with
    | .none => acceptContext p env store credentials
    | .awaitingApRepAck ctx => some (.challenged _ (env.draw 1) ctx none)
    | .awaitingSecurityLayerAck ctx => some (finishContext p ctx credentials)
    | .securityLayerActive key enctype isSealed seq =>
      some (.answered .unwillingToPerform
        "re-bind on a connection with an active security layer is not supported"
        (.securityLayerActive key enctype isSealed seq))

def handleBind (p : Provider) (env : Env) (store : Store) (req : BindRequest) (sasl : SaslState) :
    Option (BindOutcome p.platform.cipher) :=
  if req.version ≠ 3 then
    some (.answered .protocolError "only LDAPv3 is supported" .none)
  else
    match req.authentication with
    | .simple password =>
      if req.name = [] ∧ password = [] then some (.answered .success "" .none)
      else
        (authenticateSimple p store req.name password).map fun code =>
          ⟨⟨code, "", none⟩, if code = .success then some ("dn:" ++ req.name) else none, .none,
            none, none⟩
    | .sasl mechanism credentials => handleSaslBind p env store mechanism credentials sasl
    | .unrecognized =>
      some (.answered .authMethodNotSupported "unrecognized authentication choice" .none)

def BindRequest.IsGssapi (req : BindRequest) : Prop :=
  req.version = 3 ∧ ∃ credentials, req.authentication = .sasl "GSSAPI" credentials

instance (req : BindRequest) : Decidable req.IsGssapi :=
  match h : req.authentication with
  | .sasl mechanism credentials =>
    decidable_of_iff (req.version = 3 ∧ mechanism = "GSSAPI") (by simp [BindRequest.IsGssapi, h])
  | .simple _ => isFalse (by simp [BindRequest.IsGssapi, h])
  | .unrecognized => isFalse (by simp [BindRequest.IsGssapi, h])

end IronDirectory.Ldap
