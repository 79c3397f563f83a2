import IronDirectory.Defs.Kerberos.Platform
import IronDirectory.Defs.Naming.Sid
import IronDirectory.Defs.Storage.Store

namespace IronDirectory.Storage

open Base Naming

def objectSidAttr : Str := "objectsid"

def ntSecurityDescriptorAttr : Str := "ntsecuritydescriptor"

def isBinaryAttr (name : Str) : Bool :=
  name.eqIgnoreAsciiCase objectSidAttr || name.eqIgnoreAsciiCase ntSecurityDescriptorAttr

def encodeBinaryAttr (bytes : Bytes) : Str := Base64.encode bytes

def decodeBinaryAttr (value : Str) : Bytes := (Base64.decode value).getD value.toUtf8

def Entry.objectSid (e : Entry) : Option Sid := do
  let values ← e.get objectSidAttr
  let value ← values.head?
  Sid.decode (decodeBinaryAttr value)

def StoreError.display (debugStr : Str → Str) : StoreError → Str
  | .etcd e => "etcd client error: " ++ e
  | .entryDecode => "failed to decode entry: expected value at line 1 column 1"
  | .partition e => "DN error: " ++
    match e with
    | .invalidDn input reason => "invalid DN " ++ debugStr input ++ ": " ++
      match reason with
      | .emptyRdn => "empty RDN"
      | .noEquals ava => "AVA " ++ debugStr ava ++ " has no '='"
      | .emptyAttributeType => "empty attribute type"
      | .notUnderTreeRoot => "key is not under this partition's tree root"
    | .invalidId id => "invalid partition id " ++ debugStr id ++
      ": must be non-empty [a-z0-9-], no leading/trailing '-'"
    | .invalidForestId id => "invalid forest id " ++ debugStr id ++
      ": must be non-empty [a-z0-9-], no leading/trailing '-'"
    | .unknownPartition id => "unknown partition: " ++ id
    | .noOwningPartition dn => "no naming context owns DN: " ++ dn
    | .duplicateId id => "duplicate partition id: " ++ id
  | .noPartitionFor dn => "no partition covers DN " ++ dn
  | .notConnected pid => "not connected to the cluster for partition " ++ pid
  | .ridPoolCorrupt pid value => "RID pool for partition " ++ pid ++
    " is corrupt: non-numeric value " ++ debugStr value

end IronDirectory.Storage

namespace IronDirectory.Kdc

open Base Crypto Kerberos Storage

def attrPrincipalName : Str := "krbprincipalname"

def attrSalt : Str := "krbsalt"

def attrKey : Str := "krbkey"

def defaultEnctypes : List Enctype := [.aes256CtsHmacSha384_192, .aes256CtsHmacSha1_96]

inductive PrincipalError
  | crypto (e : CryptoError)
  | missingAttr (attr : Str)
  | malformed (attr value : Str)
  | noKeyForEtype (etype : Int32)
  deriving DecidableEq

def PrincipalError.display (debugStr : Str → Str) : PrincipalError → Str
  | .crypto e => "crypto error: " ++ e.display
  | .missingAttr attr => "no " ++ attr ++ " attribute on entry"
  | .malformed attr value => "malformed " ++ attr ++ " attribute value: " ++ debugStr value
  | .noKeyForEtype etype => "no key found for etype " ++ Str.ofInt etype.toInt

/-- A call that returned an error, or one that panicked. -/
inductive Fault (ε : Type)
  | error (e : ε)
  | panic
  deriving DecidableEq

structure PrincipalKey where
  enctype : Enctype
  kvno : UInt32
  key : Bytes
  deriving DecidableEq

def hexPair? (a b : Char) : Option UInt8 :=
  match Str.hexDigit? a, Str.hexDigit? b with
  | some x, some y => some (UInt8.ofNat (16 * x + y))
  | none, some y => if a = '+' then some (UInt8.ofNat y) else none
  | _, none => none

-- The source slices the text two bytes at a time, which panics inside a
-- character; two bytes that are one character are no number.
def fromHexPairs : Str → Except (Fault Unit) Bytes
  | [] => .ok []
  | [c] => if c.utf8Size = 2 then .error (.error ()) else .error .panic
  | a :: b :: cs =>
    if a.utf8Size = 1 then
      if b.utf8Size = 1 then
        match hexPair? a b with
        | none => .error (.error ())
        | some x => do return x :: (← fromHexPairs cs)
      else .error .panic
    else if a.utf8Size = 2 then .error (.error ())
    else .error .panic

def fromHex (s : Str) : Except (Fault Unit) Bytes :=
  if s.toUtf8.length % 2 ≠ 0 then .error (.error ()) else fromHexPairs s

def parseKey (v : Str) : Except (Fault PrincipalError) PrincipalKey :=
  let malformed := Fault.error (PrincipalError.malformed attrKey v)
  match Str.splitn ':' 3 v with
  | [etypeStr, kvnoStr, hexKey] => do
    let etypeNum ← Outcome.require (Str.signed? 32 etypeStr) malformed
    let enctype ← Outcome.require (Enctype.ofNumber (Int32.ofInt etypeNum)) malformed
    let kvno ← Outcome.require (Str.unsigned? (2 ^ 32) kvnoStr) malformed
    let key ← (fromHex hexKey).mapError fun
      | .error _ => malformed
      | .panic => .panic
    return ⟨enctype, UInt32.ofNat kvno, key⟩
  | _ => .error malformed

def keys (entry : Entry) : Except (Fault PrincipalError) (List PrincipalKey) := do
  let values ← Outcome.require (entry.get attrKey) (.error (.missingAttr attrKey))
  values.mapM parseKey

def keyForEnctype (entry : Entry) (enctype : Enctype) :
    Except (Fault PrincipalError) PrincipalKey := do
  let ks ← keys entry
  Outcome.require (ks.find? fun k => k.enctype == enctype)
    (.error (.noKeyForEtype enctype.etypeNumber))

def principalName (entry : Entry) : Except PrincipalError Str :=
  Outcome.require ((entry.get attrPrincipalName).bind List.head?) (.missingAttr attrPrincipalName)

def salt (entry : Entry) : Except PrincipalError Bytes := do
  let s ← Outcome.require ((entry.get attrSalt).bind List.head?) (.missingAttr attrSalt)
  return s.toUtf8

def keyValue (enctype : Enctype) (key : Bytes) : Str :=
  Str.ofInt enctype.etypeNumber.toInt ++ ":1:" ++ Bytes.toHex key

def storeKeys (c : Cipher) (entry : Entry) (principalName : Str) (secret : Bytes) (salt : Str) :
    Except PrincipalError Entry := do
  let keyValues ← defaultEnctypes.mapM fun enctype => do
    let key ← (c.stringToKey enctype secret salt.toUtf8 none).mapError .crypto
    return keyValue enctype key
  return ((entry.set attrPrincipalName [principalName]).set attrSalt [salt]).set attrKey keyValues

def setPassword (c : Cipher) (draw : Nat) (entry : Entry) (principalName : Str)
    (password : Bytes) : Except PrincipalError Entry := do
  let random ← (c.randomBytes draw minSaltLen).mapError .crypto
  storeKeys c entry principalName password (Bytes.toHex random)

def setSharedKey (c : Cipher) (entry : Entry) (principalName : Str) (secret : Bytes) :
    Except PrincipalError Entry :=
  storeKeys c entry principalName secret (Bytes.toHex principalName.toUtf8)

end IronDirectory.Kdc
