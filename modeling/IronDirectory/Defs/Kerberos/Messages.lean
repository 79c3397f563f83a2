import IronDirectory.Defs.Base.Text

namespace IronDirectory.Kerberos

open Base

instance encodableUInt8 : Encodable UInt8 :=
  Encodable.ofLeftInverse UInt8.toNat UInt8.ofNat fun x => by simp

instance encodableUInt32 : Encodable UInt32 :=
  Encodable.ofLeftInverse UInt32.toNat UInt32.ofNat fun x => by simp

instance encodableInt32 : Encodable Int32 :=
  Encodable.ofLeftInverse Int32.toInt Int32.ofInt fun x => by simp

def permittedByte (b : UInt8) : Bool := b ≤ 0x7F || 0xA0 ≤ b

structure GeneralString where
  bytes : Bytes
  permitted : bytes.all permittedByte = true
  deriving DecidableEq

def GeneralString.fromBytes (bs : Bytes) : Option GeneralString :=
  if h : bs.all permittedByte = true then some ⟨bs, h⟩ else none

theorem GeneralString.fromBytes_bytes (g : GeneralString) : fromBytes g.bytes = some g := by
  simp [fromBytes, g.permitted]

instance : Encodable GeneralString :=
  Encodable.ofLeftInjection GeneralString.bytes GeneralString.fromBytes
    GeneralString.fromBytes_bytes

abbrev Realm := GeneralString

/-- A point in time, in nanoseconds from the Unix epoch. -/
abbrev KerberosTime := Int

structure PrincipalName where
  type : Int32
  string : List GeneralString
  deriving DecidableEq, Encodable

structure EncryptionKey where
  type : Int32
  value : Bytes
  deriving Encodable

structure EncryptedData where
  etype : Int32
  kvno : Option UInt32
  cipher : Bytes
  deriving Encodable

structure Checksum where
  type : Int32
  checksum : Bytes
  deriving Encodable

structure PaData where
  type : Int32
  value : Bytes
  deriving Encodable

structure HostAddress where
  addrType : Int32
  address : Bytes
  deriving Encodable

structure AuthorizationDataValue where
  type : Int32
  data : Bytes
  deriving Encodable

abbrev AuthorizationData := List AuthorizationDataValue

structure TransitedEncoding where
  type : Int32
  contents : Bytes
  deriving Encodable

structure LastReqValue where
  type : Int32
  value : KerberosTime
  deriving Encodable

structure KerberosFlags where
  bits : List Bool
  deriving Encodable

abbrev TicketFlags := KerberosFlags

abbrev ApOptions := KerberosFlags

structure Ticket where
  tktVno : Int
  realm : Realm
  sname : PrincipalName
  encPart : EncryptedData
  deriving Encodable

structure EncTicketPart where
  flags : TicketFlags
  key : EncryptionKey
  crealm : Realm
  cname : PrincipalName
  transited : TransitedEncoding
  authTime : KerberosTime
  startTime : Option KerberosTime
  endTime : KerberosTime
  renewTill : Option KerberosTime
  caddr : Option (List HostAddress)
  authorizationData : Option AuthorizationData
  deriving Encodable

structure ApReq where
  pvno : Int
  msgType : Int
  apOptions : ApOptions
  ticket : Ticket
  authenticator : EncryptedData
  deriving Encodable

structure Authenticator where
  authenticatorVno : Int
  crealm : Realm
  cname : PrincipalName
  cksum : Option Checksum
  cusec : Int
  ctime : KerberosTime
  subkey : Option EncryptionKey
  seqNumber : Option UInt32
  authorizationData : Option AuthorizationData
  deriving Encodable

structure ApRep where
  pvno : Int
  msgType : Int
  encPart : EncryptedData
  deriving Encodable

structure EncApRepPart where
  ctime : KerberosTime
  cusec : Int
  subkey : Option EncryptionKey
  seqNumber : Option UInt32
  deriving Encodable

structure KdcReqBody where
  cname : Option PrincipalName
  realm : Realm
  sname : Option PrincipalName
  nonce : UInt32
  etype : List Int32

structure KdcReq where
  padata : Option (List PaData)
  reqBody : KdcReqBody

structure KdcRep where
  pvno : Int
  msgType : Int
  padata : Option (List PaData)
  crealm : Realm
  cname : PrincipalName
  ticket : Ticket
  encPart : EncryptedData

structure EncKdcRepPart where
  key : EncryptionKey
  lastReq : List LastReqValue
  nonce : UInt32
  keyExpiration : Option KerberosTime
  flags : TicketFlags
  authTime : KerberosTime
  startTime : Option KerberosTime
  endTime : KerberosTime
  renewTill : Option KerberosTime
  srealm : Realm
  sname : PrincipalName
  caddr : Option (List HostAddress)
  encryptedPaData : Option (List PaData)
  deriving Encodable

structure PaEncTsEnc where
  patimestamp : KerberosTime
  pausec : Option Int
  deriving Encodable

structure EtypeInfo2Entry where
  etype : Int32
  salt : Option GeneralString
  s2kparams : Option Bytes
  deriving Encodable

structure KrbError where
  pvno : Int
  msgType : Int
  ctime : Option KerberosTime
  cusec : Option Int
  stime : KerberosTime
  susec : Int
  errorCode : Int32
  crealm : Option Realm
  cname : Option PrincipalName
  realm : Realm
  sname : PrincipalName
  eText : Option GeneralString
  eData : Option Bytes
  deriving Encodable

structure KrbPriv where
  pvno : Int
  msgType : Int
  encPart : EncryptedData
  deriving Encodable

structure EncKrbPrivPart where
  userData : Bytes
  timestamp : Option KerberosTime
  usec : Option Int
  seqNumber : Option UInt32
  sAddress : Option HostAddress
  rAddress : Option HostAddress
  deriving Encodable

structure ChgPwdData where
  newpasswd : Bytes
  targname : Option PrincipalName
  targrealm : Option Realm
  deriving Encodable

inductive KdcResponse
  | asRep (rep : KdcRep)
  | tgsRep (rep : KdcRep)
  | error (e : KrbError)

end IronDirectory.Kerberos
