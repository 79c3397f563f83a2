import IronDirectory.Defs.Kdc.Principal

namespace IronDirectory.Kdc

open Base Crypto Kerberos Naming Storage

namespace Pac

def filetimeUnixEpochOffsetSecs : Int := 11644473600

def filetimeNever : UInt64 := 0x7FFFFFFFFFFFFFFF

def pacLogonInfo : UInt32 := 1

def pacServerChecksum : UInt32 := 6

def pacPrivsvrChecksum : UInt32 := 7

def pacClientInfoType : UInt32 := 10

def pacSignatureKeyUsage : UInt32 := 17

def groupAttrsDefault : UInt32 := 7

def defaultPrimaryGroupRid : UInt32 := 513

structure PacInput where
  clientSid : Sid
  domainSid : Sid
  groupRids : List UInt32
  accountName : Str
  domainNetbiosName : Str
  authTimeUnixSecs : Int

def filetimeFromUnixSecs (secs : Int) : UInt64 :=
  UInt64.ofNat (min (((secs + filetimeUnixEpochOffsetSecs) % 2 ^ 64).toNat * 10000000) (2 ^ 64 - 1))

structure NdrBuf where
  buf : Bytes
  nextReferentId : UInt32

namespace NdrBuf

def new : NdrBuf := ⟨[], 0x00020000⟩

def bytes (o : NdrBuf) (b : Bytes) : NdrBuf := { o with buf := o.buf ++ b }

def u16 (o : NdrBuf) (v : UInt16) : NdrBuf := o.bytes (Bytes.le 2 v.toNat)

def u32 (o : NdrBuf) (v : UInt32) : NdrBuf := o.bytes (Bytes.le 4 v.toNat)

def filetime (o : NdrBuf) (ticks : UInt64) : NdrBuf :=
  (o.u32 ticks.toUInt32).u32 (ticks >>> 32).toUInt32

def padTo4 (o : NdrBuf) : NdrBuf := o.bytes (List.replicate ((4 - o.buf.length % 4) % 4) 0)

def referentId (o : NdrBuf) : NdrBuf :=
  { o.u32 o.nextReferentId with nextReferentId := o.nextReferentId + 4 }

def nullPtr (o : NdrBuf) : NdrBuf := o.u32 0

end NdrBuf

def writeUnicodeStringHeader (o : NdrBuf) (s : Str) : NdrBuf :=
  if s.isEmpty then ((o.u16 0).u16 0).nullPtr
  else
    let len := UInt16.ofNat (s.encodeUtf16.length * 2)
    ((o.u16 len).u16 len).referentId

def writeUnicodeStringDeferred (o : NdrBuf) (s : Str) : NdrBuf :=
  if s.isEmpty then o
  else
    let units := s.encodeUtf16
    let o := ((o.u32 (UInt32.ofNat units.length)).u32 0).u32 (UInt32.ofNat units.length)
    (units.foldl NdrBuf.u16 o).padTo4

def writeSidDeferred (o : NdrBuf) (sid : Sid) : NdrBuf :=
  (o.u32 (UInt32.ofNat sid.subAuthorities.length)).bytes sid.encode

def kerbValidationInfo (input : PacInput) : Bytes :=
  let logonTime := filetimeFromUnixSecs input.authTimeUnixSecs
  let o := NdrBuf.new
  let o := (o.filetime logonTime).filetime filetimeNever
  let o := (o.filetime filetimeNever).filetime logonTime
  let o := (o.filetime logonTime).filetime filetimeNever
  let o := writeUnicodeStringHeader o input.accountName
  let o := writeUnicodeStringHeader o input.accountName
  let o := writeUnicodeStringHeader (writeUnicodeStringHeader o []) []
  let o := writeUnicodeStringHeader (writeUnicodeStringHeader o []) []
  let o := (o.u16 0).u16 0
  let o := o.u32 (input.clientSid.rid.getD 0)
  let o := o.u32 defaultPrimaryGroupRid
  let o := (o.u32 (UInt32.ofNat input.groupRids.length)).referentId
  let o := (o.u32 0).bytes (List.replicate 16 0)
  let o := writeUnicodeStringHeader o input.domainNetbiosName
  let o := (writeUnicodeStringHeader o input.domainNetbiosName).referentId
  let o := (o.bytes (List.replicate 8 0)).u32 0x00000200
  let o := ((o.u32 0).filetime 0).filetime 0
  let o := (o.u32 0).u32 0
  let o := ((o.u32 0).nullPtr).nullPtr
  let o := (o.u32 0).nullPtr
  let o := writeUnicodeStringDeferred o input.accountName
  let o := writeUnicodeStringDeferred o input.accountName
  let o := o.u32 (UInt32.ofNat input.groupRids.length)
  let o := input.groupRids.foldl (fun o rid => (o.u32 rid).u32 groupAttrsDefault) o
  let o := writeUnicodeStringDeferred o input.domainNetbiosName
  let o := writeUnicodeStringDeferred o input.domainNetbiosName
  (writeSidDeferred o input.domainSid).buf

structure PacContext where
  clientSid : Sid
  domainSid : Sid
  groupRids : List UInt32
  accountName : Str
  domainNetbiosName : Str

def PacContext.asInput (c : PacContext) (authTimeUnixSecs : Int) : PacInput :=
  ⟨c.clientSid, c.domainSid, c.groupRids, c.accountName, c.domainNetbiosName, authTimeUnixSecs⟩

def groupRids (store : Store) (baseDn clientDn : Dn) : List UInt32 :=
  match store.lookupByIndex baseDn "member" clientDn.display with
  | .error _ => []
  | .ok groupDns => groupDns.filterMap fun dn =>
    match store.getEntry dn with
    | .ok (some entry) => entry.objectSid.bind Sid.rid
    | _ => none

def gatherContext (store : Store) (baseDn : Dn) (topology : Option PartitionRegistry) (realm : Str)
    (clientDn : Dn) (clientEntry : Entry) : Option PacContext := do
  let topology ← topology
  let partition ← topology.resolve baseDn
  let domainSid ← partition.domainSid.bind Sid.parse
  let clientSid ← clientEntry.objectSid
  let accountName ← (clientEntry.get "cn").bind List.head?
  return ⟨clientSid, domainSid, groupRids store baseDn clientDn, accountName,
    ((realm.splitOn '.').headD realm).asciiUpper⟩

def wrapTypeSerialization1 (inner : Bytes) : Bytes :=
  let body := (NdrBuf.new.referentId.bytes inner).buf
  [1, 0x10] ++ Bytes.le 2 8 ++ Bytes.le 4 0xCCCCCCCC ++ Bytes.le 4 body.length ++
    Bytes.le 4 0xCCCCCCCC ++ body

def pacClientInfo (authTimeUnixSecs : Int) (name : Str) : Bytes :=
  Bytes.le 8 (filetimeFromUnixSecs authTimeUnixSecs).toNat ++
    Bytes.le 2 (name.encodeUtf16.length * 2) ++
    name.encodeUtf16.flatMap fun u => Bytes.le 2 u.toNat

def pacSignatureData (signatureType : Int32) (signature : Bytes) : Bytes :=
  Bytes.le 4 signatureType.toUInt32.toNat ++ signature

def blockLen (n : Nat) : Nat := (n + 7) / 8 * 8

def layout : Nat → List (UInt32 × Bytes) → Bytes × Bytes
  | _, [] => ([], [])
  | offset, (ulType, data) :: rest =>
    let tail := layout (blockLen (offset + data.length)) rest
    (Bytes.le 4 ulType.toNat ++ Bytes.le 4 data.length ++ Bytes.le 8 offset ++ tail.1,
      data ++ List.replicate (blockLen data.length - data.length) 0 ++ tail.2)

def buildPacType (buffers : List (UInt32 × Bytes)) : Bytes :=
  let parts := layout (8 + 16 * buffers.length) buffers
  Bytes.le 4 buffers.length ++ Bytes.le 4 0 ++ parts.1 ++ parts.2

def pacChecksumType : Enctype → Int32
  | .aes128CtsHmacSha1_96 => 15
  | .aes256CtsHmacSha1_96 => 16
  | .aes128CtsHmacSha256_128 => 19
  | .aes256CtsHmacSha384_192 => 20

def buffers (input : PacInput) (serverEnctype kdcEnctype : Enctype)
    (serverSignature kdcSignature : Bytes) : List (UInt32 × Bytes) :=
  [(pacLogonInfo, wrapTypeSerialization1 (kerbValidationInfo input)),
    (pacClientInfoType, pacClientInfo input.authTimeUnixSecs input.accountName),
    (pacServerChecksum, pacSignatureData (pacChecksumType serverEnctype) serverSignature),
    (pacPrivsvrChecksum, pacSignatureData (pacChecksumType kdcEnctype) kdcSignature)]

def generate (c : Cipher) (input : PacInput) (serverKey : Bytes) (serverEnctype : Enctype)
    (kdcKey : Bytes) (kdcEnctype : Enctype) : Except CryptoError Bytes := do
  let blobToChecksum := buildPacType (buffers input serverEnctype kdcEnctype
    (List.replicate serverEnctype.hmacLen 0) (List.replicate kdcEnctype.hmacLen 0))
  let serverSignature ← c.checksum serverEnctype serverKey pacSignatureKeyUsage blobToChecksum
  let kdcSignature ← c.checksum kdcEnctype kdcKey pacSignatureKeyUsage serverSignature
  return buildPacType (buffers input serverEnctype kdcEnctype serverSignature kdcSignature)

end Pac

def adWin2kPac : Int32 := 128

def adIfRelevant : Int32 := 1

def wrapPacAuthorizationData (P : Platform) (pac : Bytes) : Option AuthorizationData :=
  match P.der.authorizationData.encode [⟨adWin2kPac, pac⟩] with
  | .ok inner => some [⟨adIfRelevant, inner⟩]
  | .error _ => none

end IronDirectory.Kdc
