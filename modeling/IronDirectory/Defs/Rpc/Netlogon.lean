import IronDirectory.Defs.Rpc.Samr

namespace IronDirectory.Rpc.Netlogon

open Base Crypto Kdc Naming Storage

def opnumServerReqChallenge : UInt16 := 4

def opnumServerAuthenticate3 : UInt16 := 26

def netlogonNegSupportsAes : UInt32 := 0x01000000

def ntowfAttr : Str := "netlogonntowf"

def accessDenied : UInt32 := 0xC0000022

structure Primitives where
  hmacSha256 : Bytes → Bytes → Except CryptoError Bytes
  aes128Cfb8Encrypt : Bytes → Bytes → Except CryptoError Bytes

structure NetlogonState where
  store : Store
  baseDn : Dn
  fips : Primitives

structure Session where
  challenges : Option (Bytes × Bytes)

def Session.default : Session := ⟨none⟩

def computeSessionKeyAes (fips : Primitives) (ntowf clientChallenge serverChallenge : Bytes) :
    Except CryptoError Bytes := do
  let full ← fips.hmacSha256 ntowf (clientChallenge ++ serverChallenge)
  return full.take 16

def computeCredential (fips : Primitives) (sessionKey challenge : Bytes) :
    Except CryptoError Bytes := do
  let out ← fips.aes128Cfb8Encrypt sessionKey challenge
  return out.take 8

def primaryName : NdrRead Unit := do
  let referent ← NdrRead.u32
  if referent ≠ 0 then
    let _primaryName ← NdrRead.unicodeStringDeferred
    NdrRead.padTo4

def serverReqChallengeArgs : NdrRead Bytes := do
  primaryName
  let _computerName ← NdrRead.embeddedWstr
  NdrRead.bytes 8

def flipFirst : Bytes → Bytes
  | [] => []
  | b :: bs => (b ^^^ 0xFF) :: bs

def serverReqChallenge (session : Session) (stub : Bytes) : Option Bytes × Session :=
  match NdrRead.run serverReqChallengeArgs stub with
  | none => (none, session)
  | some clientChallenge =>
    let serverChallenge := flipFirst clientChallenge
    (some ((NdrWriter.new.bytes serverChallenge).u32 0).buf,
      ⟨some (clientChallenge, serverChallenge)⟩)

structure Authenticate3 where
  accountName : Str
  clientCredential : Bytes
  negotiateFlags : UInt32

def serverAuthenticate3Args : NdrRead Authenticate3 := do
  primaryName
  let accountName ← NdrRead.embeddedWstr
  let _secureChannelType ← NdrRead.u16
  NdrRead.padTo4
  let _computerName ← NdrRead.embeddedWstr
  let clientCredential ← NdrRead.bytes 8
  let negotiateFlags ← NdrRead.u32
  return ⟨accountName.trimEndMatches (Char.ofNat 0), clientCredential, negotiateFlags⟩

inductive Denial
  | noChallenge
  | noAes (flags : UInt32)
  | store (e : StoreError)
  | noSuchAccount
  | ambiguous (count : Nat)
  | missing (dn : Dn)
  | noSecret (dn : Dn)
  | badSecret (dn : Dn)
  | crypto (e : CryptoError)
  | wrongCredential

def theOnly : List Dn → Except Denial Dn
  | [dn] => .ok dn
  | [] => .error .noSuchAccount
  | many => .error (.ambiguous many.length)

def ntowfOf (dn : Dn) (entry : Entry) : Except (Fault Denial) Bytes := do
  let values ← Outcome.require (entry.get ntowfAttr) (.error (.noSecret dn))
  let ntowfHex ← Outcome.require values.head? (.error (.noSecret dn))
  let ntowf ← (fromHex ntowfHex).mapError fun
    | .error _ => .error (.badSecret dn)
    | .panic => .panic
  if ntowf.length = 16 then return ntowf else .error (.error (.badSecret dn))

def authenticate (state : NetlogonState) (session : Session) (req : Authenticate3) :
    Except (Fault Denial) Bytes := do
  let (clientChallenge, serverChallenge) ←
    Outcome.require session.challenges (.error .noChallenge)
  Outcome.ensure (req.negotiateFlags &&& netlogonNegSupportsAes ≠ 0)
    (.error (.noAes req.negotiateFlags))
  let dns ← (state.store.lookupByIndex state.baseDn "cn" req.accountName).mapError (.error ∘ .store)
  let dn ← (theOnly dns).mapError .error
  let entry ← (state.store.getEntry dn).mapError (.error ∘ .store)
  let entry ← Outcome.require entry (.error (.missing dn))
  let ntowf ← ntowfOf dn entry
  let sessionKey ← (computeSessionKeyAes state.fips ntowf clientChallenge serverChallenge).mapError
    (.error ∘ .crypto)
  let expected ← (computeCredential state.fips sessionKey clientChallenge).mapError
    (.error ∘ .crypto)
  Outcome.ensure (expected = req.clientCredential) (.error .wrongCredential)
  (computeCredential state.fips sessionKey serverChallenge).mapError (.error ∘ .crypto)

def authenticate3Response (credential : Bytes) (flags status : UInt32) : Bytes :=
  ((((NdrWriter.new.bytes credential).u32 flags).u32 0).u32 status).buf

/-- A refused account is answered with a status; only a stub that does not
decode has no answer. -/
def serverAuthenticate3 (state : NetlogonState) (session : Session) (stub : Bytes) :
    Except (Fault CallError) Bytes :=
  match NdrRead.run serverAuthenticate3Args stub with
  | none => .error (.error .malformed)
  | some req =>
    match authenticate state session req with
    | .ok serverCredential =>
      .ok (authenticate3Response serverCredential req.negotiateFlags NtStatus.success)
    | .error (.error _) => .ok (authenticate3Response (List.replicate 8 0) 0 accessDenied)
    | .error .panic => .error .panic

def dispatch (state : NetlogonState) (session : Session) (opnum : UInt16) (stub : Bytes) :
    Except (Fault CallError) Bytes × Session :=
  if opnum = opnumServerReqChallenge then
    let (response, session) := serverReqChallenge session stub
    (Outcome.require response (.error .malformed), session)
  else if opnum = opnumServerAuthenticate3 then (serverAuthenticate3 state session stub, session)
  else (.error (.error .unknownOpnum), session)

end IronDirectory.Rpc.Netlogon
