import IronDirectory.Defs.Kdc.App

namespace IronDirectory.Ldap.Gssapi

open Base Crypto Kerberos Naming Storage Kdc Outcome

def krb5MechOidDer : Bytes := [0x06, 0x09, 0x2a, 0x86, 0x48, 0x86, 0xf7, 0x12, 0x01, 0x02, 0x02]

def tokIdApReq : Bytes := [0x01, 0x00]

def tokIdApRep : Bytes := [0x02, 0x00]

def tokIdWrap : Bytes := [0x05, 0x04]

inductive TokenError
  | empty
  | notInitialToken
  | truncated
  | unknownMechanism
  | wrongTokId (found expected : Bytes)

def debugOctets (b : Bytes) : Str :=
  "[" ++ List.intercalate ", ".toList (b.map fun x => Bytes.toHex [x]) ++ "]"

def TokenError.display : TokenError → Str
  | empty => "empty GSS token"
  | notInitialToken => "not an Initial Context Token (expected tag 0x60)"
  | truncated => "truncated GSS token"
  | unknownMechanism => "unrecognized mechanism OID (only Kerberos V5 is supported)"
  | wrongTokId found expected =>
    "unexpected TOK_ID " ++ debugOctets found ++ ", expected " ++ debugOctets expected

def readBerLength : Bytes → Except TokenError (Nat × Bytes)
  | [] => .error .truncated
  | first :: rest =>
    if first.toNat < 0x80 then .ok (first.toNat, rest)
    else
      let n := first.toNat % 0x80
      if n = 0 ∨ 8 < n ∨ rest.length < n then .error .truncated
      else .ok (Bytes.ofBe (rest.take n), rest.drop n)

def writeBerLength (len : Nat) : Bytes :=
  if len < 128 then [UInt8.ofNat len]
  else
    let content := (Bytes.be 8 len).dropWhile (· == 0)
    UInt8.ofNat (0x80 + content.length) :: content

def parseInitialContextToken : Bytes → Except TokenError Bytes
  | [] => .error .empty
  | tag :: buf => do
    ensure (tag = 0x60) .notInitialToken
    let (len, rest) ← readBerLength buf
    ensure (len ≤ rest.length) .truncated
    let body := rest.take len
    ensure (krb5MechOidDer.isPrefixOf body = true) .unknownMechanism
    return body.drop krb5MechOidDer.length

def buildInitialContextToken (inner : Bytes) : Bytes :=
  0x60 :: writeBerLength (krb5MechOidDer.length + inner.length) ++ krb5MechOidDer ++ inner

def splitTokId (buf expected : Bytes) : Except TokenError Bytes := do
  ensure (2 ≤ buf.length) .truncated
  ensure (buf.take 2 = expected) (.wrongTokId (buf.take 2) expected)
  return buf.drop 2

inductive WrapError
  | truncated
  | wrongTokId
  | badChecksum
  | headerMismatch
  | crypto (e : CryptoError)

def WrapError.display : WrapError → Str
  | truncated => "truncated Wrap token"
  | wrongTokId => "wrong TOK_ID for a Wrap token"
  | badChecksum => "checksum verification failed"
  | headerMismatch => "sealed token's trailing header copy didn't match"
  | crypto e => "crypto error: " ++ e.display

def wrapHeader (isSealed : Bool) (ec : Nat) (seq : UInt64) : Bytes :=
  tokIdWrap ++ [if isSealed then 0x03 else 0x01, 0xFF] ++ Bytes.be 2 ec ++ [0, 0] ++
    Bytes.be 8 seq.toNat

def wrap (c : Cipher) (draw : Nat) (enctype : Enctype) (sessionKey : Bytes) (usage : UInt32)
    (isSealed : Bool) (seq : UInt64) (plain : Bytes) : Except WrapError Bytes :=
  if isSealed then do
    let body ← (c.encrypt draw enctype sessionKey usage (plain ++ wrapHeader true 0 seq)).mapError
      .crypto
    return wrapHeader true 0 seq ++ body
  else do
    -- the checksum is taken over a header whose EC is zero
    let mic ← (c.checksum enctype sessionKey usage (plain ++ wrapHeader false 0 seq)).mapError .crypto
    return wrapHeader false enctype.hmacLen seq ++ plain ++ mic

def unrotate (rrc : Nat) (rest : Bytes) : Bytes :=
  let r := if rest.length = 0 then 0 else rrc % rest.length
  rest.drop r ++ rest.take r

def unwrap (c : Cipher) (enctype : Enctype) (sessionKey : Bytes) (usage : UInt32)
    (token : Bytes) : Except WrapError Bytes := do
  ensure (16 ≤ token.length) .truncated
  ensure (token.take 2 = tokIdWrap) .wrongTokId
  let unrotated := unrotate (Bytes.ofBe ((token.drop 6).take 2)) (token.drop 16)
  if ((token.drop 2).headD 0).toNat / 2 % 2 = 1 then do
    let decrypted ← (c.decrypt enctype sessionKey usage unrotated).mapError .crypto
    ensure (16 ≤ decrypted.length) .truncated
    -- the header as it was sealed, before any rotation
    ensure (decrypted.drop (decrypted.length - 16) =
      token.take 6 ++ [0, 0] ++ (token.take 16).drop 8) .headerMismatch
    return decrypted.take (decrypted.length - 16)
  else do
    ensure (enctype.hmacLen ≤ unrotated.length) .truncated
    let plain := unrotated.take (unrotated.length - enctype.hmacLen)
    let mic := unrotated.drop (unrotated.length - enctype.hmacLen)
    let expected ← (c.checksum enctype sessionKey usage
      (plain ++ (token.take 4 ++ [0, 0, 0, 0] ++ (token.take 16).drop 8))).mapError .crypto
    ensure (expected = mic) .badChecksum
    return plain

inductive AcceptError
  | token (e : TokenError)
  | decode (e : Str)
  | encode (e : Str)
  | noServiceKey
  | unsupportedEnctype (etype : Int32)
  | ticketDecryptFailed
  | authenticatorDecryptFailed
  | authenticatorMismatch
  | clockSkew
  | ticketExpired
  | malformedGssChecksum
  | crypto (e : CryptoError)

def AcceptError.display : AcceptError → Str
  | token e => "GSS token framing error: " ++ e.display
  | decode e => "DER decode failed: " ++ e
  | encode e => "DER encode failed: " ++ e
  | noServiceKey => "no key for ticket issuer principal"
  | unsupportedEnctype etype => "unsupported enctype " ++ Str.ofInt etype.toInt
  | ticketDecryptFailed => "ticket decryption failed (wrong service key or corrupted ticket)"
  | authenticatorDecryptFailed => "authenticator decryption failed"
  | authenticatorMismatch => "authenticator does not match ticket (crealm/cname mismatch)"
  | clockSkew => "clock skew too great"
  | ticketExpired => "ticket expired"
  | malformedGssChecksum => "missing or malformed GSS checksum (type must be 0x8003)"
  | crypto e => "crypto error: " ++ e.display

def gssChecksumType : Int32 := 0x8003

structure AcceptedContext where
  clientPrincipal : Str
  sessionKey : Bytes
  enctype : Enctype
  outputToken : Option Bytes

def gssChecksumFlags (bytes : Bytes) : Except AcceptError Nat := do
  ensure (24 ≤ bytes.length) .malformedGssChecksum
  return Bytes.ofLe ((bytes.drop 20).take 4)

def tokenApReq (P : Platform) (inputToken : Bytes) : Except AcceptError ApReq := do
  let inner ← (parseInitialContextToken inputToken).mapError .token
  let bytes ← (splitTokId inner tokIdApReq).mapError .token
  (P.der.apReq.decode bytes).mapError .decode

def serviceEntry (store : Store) (anyDn : Dn) (principal : Str) : Option Entry := do
  let dns ← (store.lookupByIndex anyDn attrPrincipalName principal).toOption
  let dn ← dns.head?
  Kdc.present (store.getEntry dn)

/-- The keys of the principal a ticket names.  Keys that do not parse are none,
unless parsing panics. -/
def lookupKeys (store : Store) (anyDn : Dn) (sname : PrincipalName) (realm : Str) :
    Except (Fault AcceptError) (List PrincipalKey) :=
  match serviceEntry store anyDn (principalFqn (principalNameToString sname) realm) with
  | none => .error (.error .noServiceKey)
  | some entry =>
    match keys entry with
    | .ok ks => .ok ks
    | .error (.error _) => .error (.error .noServiceKey)
    | .error .panic => .error .panic

def outputToken (P : Platform) (draw : Nat) (enctype : Enctype) (ticketSessionKey : Bytes)
    (authenticator : Authenticator) (gssFlags : Nat) : Except AcceptError (Option Bytes) :=
  if gssFlags / 2 % 2 = 1 then do
    let bytes ← (P.der.encApRepPart.encode
      ⟨authenticator.ctime, authenticator.cusec, none, none⟩).mapError .encode
    let cipher ← (P.cipher.encrypt draw enctype ticketSessionKey 12 bytes).mapError .crypto
    let apRep ← (P.der.apRep.encode ⟨5, 15, enctype.etypeNumber, none, cipher⟩).mapError .encode
    return some (buildInitialContextToken (tokIdApRep ++ apRep))
  else .ok none

def accept (P : Platform) (env : Env) (inputToken : Bytes)
    (lookupKey : PrincipalName → Str → Except (Fault AcceptError) (List PrincipalKey)) :
    Except (Fault AcceptError) AcceptedContext := do
  let apReq ← (tokenApReq P inputToken).mapError .error
  let serviceKeys ← lookupKey apReq.ticket.sname (realmToString apReq.ticket.realm)
  let enctype ← require (Enctype.ofNumber apReq.ticket.encPart.etype)
    (.error (.unsupportedEnctype apReq.ticket.encPart.etype))
  let serviceKey ← require (serviceKeys.find? fun k => k.enctype == enctype)
    (.error .noServiceKey)
  let ticketBytes ← (P.cipher.decrypt enctype serviceKey.key 2 apReq.ticket.encPart.cipher).mapError
    fun _ => .error .ticketDecryptFailed
  let tgt ← (P.der.encTicketPart.decode ticketBytes).mapError fun e => .error (.decode e)
  let serverNow := (now (env.clock.reading 0)).1
  ensure (diffSeconds tgt.endTime serverNow ≤ 0) (.error .ticketExpired)
  let authBytes ← (P.cipher.decrypt enctype tgt.key.value 11 apReq.authenticator.cipher).mapError
    fun _ => .error .authenticatorDecryptFailed
  let authenticator ← (P.der.authenticator.decode authBytes).mapError fun e => .error (.decode e)
  ensure (authenticator.crealm = tgt.crealm ∧ authenticator.cname = tgt.cname)
    (.error .authenticatorMismatch)
  ensure ((diffSeconds authenticator.ctime serverNow).natAbs ≤ clockSkewSecs) (.error .clockSkew)
  let cksum ← require authenticator.cksum (.error .malformedGssChecksum)
  ensure (cksum.type = gssChecksumType) (.error .malformedGssChecksum)
  let gssFlags ← (gssChecksumFlags cksum.checksum).mapError .error
  let token ← (outputToken P (env.draw 0) enctype tgt.key.value authenticator gssFlags).mapError
    .error
  return ⟨principalFqn (principalNameToString tgt.cname) (realmToString tgt.crealm),
    (authenticator.subkey.map EncryptionKey.value).getD tgt.key.value, enctype, token⟩

theorem accept_eq_ok {P : Platform} {env : Env} {inputToken : Bytes}
    {lookupKey : PrincipalName → Str → Except (Fault AcceptError) (List PrincipalKey)}
    {a : AcceptedContext} (h : accept P env inputToken lookupKey = .ok a) :
    ∃ ap ks k b, tokenApReq P inputToken = .ok ap ∧
      lookupKey ap.ticket.sname (realmToString ap.ticket.realm) = .ok ks ∧
      ks.find? (fun k => k.enctype == a.enctype) = some k ∧
      P.cipher.decrypt a.enctype k.key 2 ap.ticket.encPart.cipher = .ok b := by
  simp only [accept, bind_eq_ok, mapError_eq_ok, require_eq_ok, ensure_eq_ok, pure_eq_ok] at h
  obtain ⟨ap, hap, ks, hks, e, _, k, hk, b, hb, _, _, _, _, _, _, _, _, _, _, _, _, _, _, _, _, _, _,
    _, _, rfl⟩ := h
  exact ⟨ap, ks, k, b, hap, hks, hk, hb⟩

end IronDirectory.Ldap.Gssapi
