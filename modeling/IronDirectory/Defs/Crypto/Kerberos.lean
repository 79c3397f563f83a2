import IronDirectory.Defs.Crypto.Cipher
import IronDirectory.Defs.Crypto.NFold

namespace IronDirectory.Crypto

open Base Outcome

inductive Digest
  | sha1 | sha256 | sha384
  deriving DecidableEq

def Digest.size : Digest → Nat
  | sha1 => 20
  | sha256 => 32
  | sha384 => 48

namespace Enctype

def digest : Enctype → Digest
  | aes128CtsHmacSha1_96 => .sha1
  | aes256CtsHmacSha1_96 => .sha1
  | aes128CtsHmacSha256_128 => .sha256
  | aes256CtsHmacSha384_192 => .sha384

def isRfc8009 : Enctype → Bool
  | aes128CtsHmacSha1_96 => false
  | aes256CtsHmacSha1_96 => false
  | aes128CtsHmacSha256_128 => true
  | aes256CtsHmacSha384_192 => true

def rfc8009Name : Enctype → Str
  | aes128CtsHmacSha256_128 => "aes128-cts-hmac-sha256-128"
  | aes256CtsHmacSha384_192 => "aes256-cts-hmac-sha384-192"
  | _ => []

def defaultIterations (e : Enctype) : UInt32 := if e.isRfc8009 then 32768 else 4096

def kiBits : Enctype → Nat
  | aes256CtsHmacSha384_192 => 192
  | e => 8 * e.keyLen

end Enctype

/-- What the code calls of the library. -/
structure Ossl where
  newContext : Nat → Except CryptoError Unit
  random : Nat → Nat → Except CryptoError Bytes
  aesCbc : Bytes → Bytes → Except CryptoError Bytes
  aesCtsEncrypt : Bytes → Bytes → Bytes → Except CryptoError Bytes
  aesCtsDecrypt : Bytes → Bytes → Bytes → Except CryptoError Bytes
  hmac : Digest → Bytes → Bytes → Except CryptoError Bytes
  pbkdf2 : Digest → Bytes → Bytes → UInt32 → Nat → Except CryptoError Bytes

inductive Failure
  | error (e : CryptoError)
  | panic

def Failure.toError : Failure → CryptoError
  | error e => e
  | panic => .ossl

def constantTimeEq (a b : Bytes) : Bool :=
  if a.length ≠ b.length then false
  else (a.zip b).foldl (fun diff x => diff ||| (x.1 ^^^ x.2)) 0 = 0

namespace Ossl

variable (o : Ossl)

def call {α : Type} (x : Except CryptoError α) : Except Failure α := x.mapError .error

def upTo (bs : Bytes) (n : Nat) : Except Failure Bytes :=
  if n ≤ bs.length then .ok (bs.take n) else .error .panic

def zeroIv : Bytes := List.replicate 16 0

def checkKey (key : Bytes) : Except Failure PUnit :=
  ensure (key.length = 16 ∨ key.length = 32) (.error .bufferSize)

def aesCbcEncryptBlock (key block : Bytes) : Except Failure Bytes := do
  checkKey key
  call (o.aesCbc key block)

/-- The loop that draws blocks until there are enough.  Without fuel it stands
for one that goes on for ever. -/
def drLoop (key : Bytes) (keyLen : Nat) : Nat → Bytes → Bytes → Except Failure Bytes
  | 0, out, _ => if out.length < keyLen then .error .panic else return out.take keyLen
  | fuel + 1, out, block =>
    if out.length < keyLen then do
      let block ← o.aesCbcEncryptBlock key block
      drLoop key keyLen fuel (out ++ block) block
    else
      return out.take keyLen

def dr (key constant : Bytes) (keyLen : Nat) : Except Failure Bytes := do
  let folded ← require (NFold.nFold false 1 constant 16) .panic
  let block ← o.aesCbcEncryptBlock key folded
  o.drLoop key keyLen keyLen block block

def kdfHmacSha2 (key label : Bytes) (kBits : Nat) (digest : Digest) : Except Failure Bytes := do
  ensure (digest ≠ .sha1) (.error .bufferSize)
  let out ← call (o.hmac digest key (Bytes.be 4 1 ++ label ++ [0] ++ Bytes.be 4 kBits))
  return out.take ((kBits + 7) / 8)

def stringToKey (e : Enctype) (passphrase salt : Bytes) (iterations : Option UInt32) :
    Except Failure Bytes := do
  let iterations := iterations.getD e.defaultIterations
  if e.isRfc8009 then do
    let saltp := e.rfc8009Name.toUtf8 ++ [0] ++ salt
    let tkey ← call (o.pbkdf2 e.digest passphrase saltp iterations e.keyLen)
    o.kdfHmacSha2 tkey (Str.toUtf8 "kerberos") (8 * e.keyLen) e.digest
  else do
    let tkey ← call (o.pbkdf2 e.digest passphrase salt iterations e.keyLen)
    o.dr tkey (Str.toUtf8 "kerberos") e.keyLen

def derive (e : Enctype) (baseKey : Bytes) (usage : UInt32) (purpose : UInt8) (bits : Nat) :
    Except Failure Bytes :=
  let label := Bytes.be 4 usage.toNat ++ [purpose]
  if e.isRfc8009 then o.kdfHmacSha2 baseKey label bits e.digest else o.dr baseKey label e.keyLen

structure DerivedKeys where
  ke : Bytes
  ki : Bytes

def deriveKeKi (e : Enctype) (baseKey : Bytes) (usage : UInt32) : Except Failure DerivedKeys := do
  let ke ← o.derive e baseKey usage 0xAA (8 * e.keyLen)
  let ki ← o.derive e baseKey usage 0x55 e.kiBits
  return ⟨ke, ki⟩

def deriveKc (e : Enctype) (baseKey : Bytes) (usage : UInt32) : Except Failure Bytes :=
  o.derive e baseKey usage 0x99 e.kiBits

def ctsEncrypt (key iv plaintext : Bytes) : Except Failure (Bytes × Bytes) := do
  checkKey key
  let out ← call (o.aesCtsEncrypt key iv plaintext)
  ensure (16 ≤ out.length) .panic
  return (out, out.drop (out.length - 16))

def ctsDecrypt (key iv ciphertext : Bytes) : Except Failure Bytes := do
  checkKey key
  call (o.aesCtsDecrypt key iv ciphertext)

def encrypt (draw : Nat) (e : Enctype) (baseKey : Bytes) (usage : UInt32) (plaintext : Bytes) :
    Except Failure Bytes := do
  let keys ← o.deriveKeKi e baseKey usage
  let confounder ← call (o.random draw 16)
  let confPt := confounder ++ plaintext
  let c ← o.ctsEncrypt keys.ke zeroIv confPt
  let h ← call (o.hmac e.digest keys.ki (if e.isRfc8009 then zeroIv ++ c.1 else confPt))
  let tag ← upTo h e.hmacLen
  return c.1 ++ tag

def decrypt (e : Enctype) (baseKey : Bytes) (usage : UInt32) (ciphertext : Bytes) :
    Except Failure Bytes := do
  ensure (e.hmacLen + 16 ≤ ciphertext.length) (.error .bufferSize)
  let c := ciphertext.take (ciphertext.length - e.hmacLen)
  let h := ciphertext.drop (ciphertext.length - e.hmacLen)
  let keys ← o.deriveKeKi e baseKey usage
  if e.isRfc8009 then do
    let expected ← call (o.hmac e.digest keys.ki (zeroIv ++ c))
    let tag ← upTo expected e.hmacLen
    ensure (constantTimeEq tag h = true) (.error .integrityCheckFailed)
    let confPt ← o.ctsDecrypt keys.ke zeroIv c
    ensure (16 ≤ confPt.length) .panic
    return confPt.drop 16
  else do
    let confPt ← o.ctsDecrypt keys.ke zeroIv c
    let expected ← call (o.hmac e.digest keys.ki confPt)
    let tag ← upTo expected e.hmacLen
    ensure (constantTimeEq tag h = true) (.error .integrityCheckFailed)
    ensure (16 ≤ confPt.length) .panic
    return confPt.drop 16

def checksum (e : Enctype) (baseKey : Bytes) (usage : UInt32) (message : Bytes) :
    Except Failure Bytes := do
  let kc ← o.deriveKc e baseKey usage
  let h ← call (o.hmac e.digest kc message)
  upTo h e.hmacLen

def cipher : Cipher where
  newContext := o.newContext
  randomBytes := o.random
  stringToKey e pass salt i := (o.stringToKey e pass salt i).mapError Failure.toError
  encrypt draw e k u p := (o.encrypt draw e k u p).mapError Failure.toError
  decrypt e k u b := (o.decrypt e k u b).mapError Failure.toError
  checksum e k u m := (o.checksum e k u m).mapError Failure.toError

end Ossl

end IronDirectory.Crypto
