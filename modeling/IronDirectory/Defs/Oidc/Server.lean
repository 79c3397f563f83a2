import IronDirectory.Defs.Base.Utf8Laws
import IronDirectory.Defs.Ldap.Filter
import IronDirectory.Defs.Ldap.Session

/-! The OpenID Connect server: its clients, the store of authorization codes,
and the login and token handlers.  A handler is cut where it waits for a lock,
so that handlers can be interleaved; the directory and the codes, which they
share, are arguments. -/

namespace IronDirectory.Base

def Str.fromUtf8 (bs : Bytes) : Option Str :=
  if Utf8.Valid bs then some (Utf8.fromUtf8Lossy bs) else none

def Str.splitOnce (sep : Char) : Str → Option (Str × Str)
  | [] => none
  | c :: cs => if c = sep then some ([], cs) else (splitOnce sep cs).map fun (a, b) => (c :: a, b)

def Base64.encodeUrl (bs : Bytes) : Str :=
  ((Base64.encode bs).filter (· ≠ '=')).map fun c =>
    if c = '+' then '-' else if c = '/' then '_' else c

end IronDirectory.Base

namespace IronDirectory.Oidc

open Base Crypto Kdc Naming Storage

structure Client where
  clientId : Str
  clientSecret : Str
  redirectUri : Str

structure ClientRegistry where
  clients : OrderedMap Str Client

namespace ClientRegistry

def get (reg : ClientRegistry) (clientId : Str) : Option Client := reg.clients.find? clientId

def authenticate (reg : ClientRegistry) (clientId clientSecret : Str) : Bool :=
  match reg.get clientId with
  | some c => c.clientSecret == clientSecret
  | none => false

end ClientRegistry

structure NewCode where
  clientId : Str
  redirectUri : Str
  subjectDn : Str
  nonce : Option Str
  scope : Str

structure IssuedCode extends NewCode where
  expiresAt : Nat

abbrev CodeStore := OrderedMap Str IssuedCode

namespace CodeStore

def issue (codes : CodeStore) (raw : Bytes) (new : NewCode) (now ttl : Nat) : Str × CodeStore :=
  let code := Base64.encodeUrl raw
  (code, codes.insert code { new with expiresAt := now + ttl })

/-- The first half of `consume`, under the lock. -/
def remove (codes : CodeStore) (code : Str) : Option IssuedCode × CodeStore :=
  (codes.find? code, codes.erase code)

end CodeStore

/-- The second half of `consume`. -/
def IssuedCode.unexpired (c : IssuedCode) (now : Nat) : Option IssuedCode :=
  if c.expiresAt < now then none else some c

structure IdTokenClaims where
  iss : Str
  sub : Str
  aud : Str
  exp : UInt64
  iat : UInt64
  nonce : Option Str
  email : Option Str
  name : Option Str
  preferredUsername : Option Str

structure AccessTokenClaims where
  iss : Str
  sub : Str
  exp : UInt64
  iat : UInt64
  scope : Str

structure Provider where
  derive : Ldap.Derive
  headerJson : Str → Str → Str → Bytes
  idJson : IdTokenClaims → Bytes
  accessJson : AccessTokenClaims → Bytes
  signEs256 : Bytes → Except CryptoError Bytes

structure AppState where
  issuer : Str
  baseDn : Dn
  loginAttribute : Str
  fips : Provider
  clients : ClientRegistry
  codeTtl : Nat
  tokenTtl : UInt64

def keyId : Str := "iron-oidc-1"

def sign (fips : Provider) (kid : Str) (claims : Bytes) : Except CryptoError Str := do
  let headerB64 := Base64.encodeUrl (fips.headerJson "ES256" "JWT" kid)
  let signingInput := headerB64 ++ '.' :: Base64.encodeUrl claims
  let sig ← fips.signEs256 signingInput.toUtf8
  return signingInput ++ '.' :: Base64.encodeUrl sig

def resolveUser (store : Store) (baseDn : Dn) (loginAttribute username : Str) :
    Option (Dn × Entry) :=
  match store.lookupByIndex baseDn loginAttribute username with
  | .ok [dn] => (present (store.getEntry dn)).map fun entry => (dn, entry)
  | _ => none

structure LoginForm where
  username : Str
  password : Str
  clientId : Str
  redirectUri : Str
  scope : Str
  state : Option Str
  nonce : Option Str

inductive LoginResponse
  | badRequest (text : Str)
  | loginPage (error : Option Str)
  | internalServerError (text : Str)
  | redirect (url : Str)
  deriving DecidableEq

def validateClient (app : AppState) (clientId redirectUri : Str) : Option Client :=
  (app.clients.get clientId).filter fun c => c.redirectUri == redirectUri

def invalidLogin : Fault LoginResponse := .error (.loginPage (some "Invalid username or password"))

def checkLogin (app : AppState) (store : Store) (form : LoginForm) :
    Except (Fault LoginResponse) NewCode := do
  let _client ← Outcome.require (validateClient app form.clientId form.redirectUri)
    (.error (.badRequest "unknown client_id or redirect_uri does not match registration"))
  let (dn, entry) ← Outcome.require
    (resolveUser store app.baseDn app.loginAttribute form.username) invalidLogin
  let stored ← Outcome.require ((entry.get Ldap.userPasswordAttr).bind List.head?) invalidLogin
  match Ldap.verifyPassword app.fips.derive form.password.toUtf8 stored with
  | .ok true => return ⟨form.clientId, form.redirectUri, dn.display, form.nonce, form.scope⟩
  | .error .panic => .error .panic
  | _ => .error invalidLogin

def upperHex (n : Nat) : Char := if n < 10 then Char.ofNat (48 + n) else Char.ofNat (55 + n)

def isUnreserved (b : UInt8) : Bool :=
  (0x41 ≤ b && b ≤ 0x5A) || (0x61 ≤ b && b ≤ 0x7A) || (0x30 ≤ b && b ≤ 0x39) ||
    b == 0x2D || b == 0x5F || b == 0x2E || b == 0x7E

def urlencodingEncode (s : Str) : Str :=
  s.toUtf8.flatMap fun b =>
    if isUnreserved b then [Char.ofNat b.toNat]
    else ['%', upperHex (b.toNat / 16), upperHex (b.toNat % 16)]

def redirectTo (redirectUri code : Str) (state : Option Str) : Str :=
  redirectUri ++ "?code=" ++ urlencodingEncode code ++
    match state with
    | some s => "&state=" ++ urlencodingEncode s
    | none => []

def issueCode (app : AppState) (codes : CodeStore) (draw : Except CryptoError Bytes) (now : Nat)
    (form : LoginForm) (new : NewCode) : LoginResponse × CodeStore :=
  match draw with
  | .error _ => (.internalServerError "failed to issue authorization code", codes)
  | .ok raw =>
    let (code, codes) := codes.issue raw new now app.codeTtl
    (.redirect (redirectTo form.redirectUri code form.state), codes)

/-- `submit_login` in one go; `none` when the password check panics. -/
def submitLogin (app : AppState) (store : Store) (codes : CodeStore)
    (draw : Except CryptoError Bytes) (now : Nat) (form : LoginForm) :
    Option (LoginResponse × CodeStore) :=
  match checkLogin app store form with
  | .error .panic => none
  | .error (.error response) => some (response, codes)
  | .ok new => some (issueCode app codes draw now form new)

structure TokenRequest where
  authorization : Option Str
  grantType : Str
  code : Option Str
  redirectUri : Option Str
  clientId : Option Str
  clientSecret : Option Str

inductive StatusCode
  | unauthorized
  | badRequest
  | internalServerError
  deriving DecidableEq

structure ErrorResponse where
  status : StatusCode
  error : Str
  description : Str
  deriving DecidableEq

def basicAuth (authorization : Option Str) : Option (Str × Str) := do
  let value ← authorization
  let encoded ← value.stripPrefix "Basic "
  let decoded ← Base64.decode encoded
  let decoded ← Str.fromUtf8 decoded
  Str.splitOnce ':' decoded

def clientCredentials (req : TokenRequest) : Option (Str × Str) :=
  match basicAuth req.authorization with
  | some creds => some creds
  | none =>
    match req.clientId, req.clientSecret with
    | some id, some secret => some (id, secret)
    | _, _ => none

structure Presented where
  clientId : Str
  code : Str
  redirectUri : Str

def checkRequest (app : AppState) (req : TokenRequest) : Except ErrorResponse Presented := do
  let (clientId, clientSecret) ← Outcome.require (clientCredentials req)
    ⟨.unauthorized, "invalid_client", "missing client credentials"⟩
  Outcome.ensure (app.clients.authenticate clientId clientSecret = true)
    ⟨.unauthorized, "invalid_client", "unknown client or bad secret"⟩
  Outcome.ensure (req.grantType = "authorization_code")
    ⟨.badRequest, "unsupported_grant_type", "only authorization_code is supported"⟩
  let missing : ErrorResponse :=
    ⟨.badRequest, "invalid_request", "code and redirect_uri are required"⟩
  let code ← Outcome.require req.code missing
  let redirectUri ← Outcome.require req.redirectUri missing
  return ⟨clientId, code, redirectUri⟩

def acceptCode (p : Presented) (taken : Option IssuedCode) (now : Nat) :
    Except ErrorResponse IssuedCode := do
  let issued ← Outcome.require (taken.bind fun c => c.unexpired now)
    ⟨.badRequest, "invalid_grant", "code is unknown, expired, or already used"⟩
  Outcome.ensure (issued.clientId = p.clientId ∧ issued.redirectUri = p.redirectUri)
    ⟨.badRequest, "invalid_grant", "code was not issued to this client/redirect_uri"⟩
  return issued

def readSubject (store : Store) (issued : IssuedCode) : Except ErrorResponse Entry := do
  let dn ← (Dn.parse issued.subjectDn).mapError fun _ =>
    ⟨.internalServerError, "server_error", "stored subject DN is malformed"⟩
  Outcome.require (present (store.getEntry dn))
    ⟨.badRequest, "invalid_grant", "the authenticated user no longer exists"⟩

def firstOf (entry : Entry) (attr : Str) : Option Str := (entry.get attr).bind List.head?

def idClaims (app : AppState) (iat : UInt64) (clientId : Str) (issued : IssuedCode)
    (entry : Entry) : IdTokenClaims :=
  let scopes := Ldap.Filter.splitWhitespace issued.scope
  { iss := app.issuer
    sub := issued.subjectDn
    aud := clientId
    exp := iat + app.tokenTtl
    iat := iat
    nonce := issued.nonce
    email := if scopes.contains "email" then firstOf entry "mail" else none
    name := if scopes.contains "profile" then firstOf entry "cn" else none
    preferredUsername := (firstOf entry "uid").or (firstOf entry "cn") }

def accessClaims (app : AppState) (iat : UInt64) (issued : IssuedCode) : AccessTokenClaims :=
  ⟨app.issuer, issued.subjectDn, iat + app.tokenTtl, iat, issued.scope⟩

structure TokenResponse where
  accessToken : Str
  tokenType : Str
  expiresIn : UInt64
  idToken : Str
  scope : Str

def issueTokens (app : AppState) (store : Store) (iat : UInt64) (p : Presented)
    (issued : IssuedCode) : Except ErrorResponse TokenResponse := do
  let entry ← readSubject store issued
  let idToken ← (sign app.fips keyId
    (app.fips.idJson (idClaims app iat p.clientId issued entry))).mapError fun _ =>
      ⟨.internalServerError, "server_error", "failed to sign id_token"⟩
  let accessToken ← (sign app.fips keyId
    (app.fips.accessJson (accessClaims app iat issued))).mapError fun _ =>
      ⟨.internalServerError, "server_error", "failed to sign access_token"⟩
  return ⟨accessToken, "Bearer", app.tokenTtl, idToken, issued.scope⟩

/-- `token` in one go. -/
def token (app : AppState) (store : Store) (codes : CodeStore) (now : Nat) (iat : UInt64)
    (req : TokenRequest) : Except ErrorResponse TokenResponse × CodeStore :=
  match checkRequest app req with
  | .error e => (.error e, codes)
  | .ok p =>
    let (taken, codes) := codes.remove p.code
    (acceptCode p taken now >>= issueTokens app store iat p, codes)

end IronDirectory.Oidc
