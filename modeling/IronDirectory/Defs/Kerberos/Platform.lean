import IronDirectory.Defs.Base.Codec
import IronDirectory.Defs.Crypto.Cipher
import IronDirectory.Defs.Kerberos.Names

/-! The libraries the daemons are built on, and what is assumed of them. -/

namespace IronDirectory.Kerberos

open Base Crypto

structure Codecs where
  apReq : Codec ApReq
  encTicketPart : Codec EncTicketPart
  authenticator : Codec Authenticator
  encAsRepPart : Codec EncKdcRepPart
  encTgsRepPart : Codec EncKdcRepPart
  encryptedData : Codec EncryptedData
  paEncTsEnc : Codec PaEncTsEnc
  etypeInfo2 : Codec (List EtypeInfo2Entry)
  methodData : Codec (List PaData)
  authorizationData : Codec AuthorizationData
  apRep : Codec ApRep
  encApRepPart : Codec EncApRepPart
  krbError : Codec KrbError
  krbPriv : Codec KrbPriv
  encKrbPrivPart : Codec EncKrbPrivPart
  chgPwdData : Codec ChgPwdData

def EncTicketPart.Wf (p : EncTicketPart) : Prop :=
  TimeOk p.authTime ∧ (∀ t ∈ p.startTime, TimeOk t) ∧ TimeOk p.endTime ∧
    ∀ t ∈ p.renewTill, TimeOk t

def Authenticator.Wf (a : Authenticator) : Prop := TimeOk a.ctime

def EncKdcRepPart.Wf (p : EncKdcRepPart) : Prop :=
  (∀ r ∈ p.lastReq, TimeOk r.value) ∧ (∀ t ∈ p.keyExpiration, TimeOk t) ∧ TimeOk p.authTime ∧
    (∀ t ∈ p.startTime, TimeOk t) ∧ TimeOk p.endTime ∧ ∀ t ∈ p.renewTill, TimeOk t

def PaEncTsEnc.Wf (p : PaEncTsEnc) : Prop := TimeOk p.patimestamp

def EncApRepPart.Wf (p : EncApRepPart) : Prop := TimeOk p.ctime

def KrbError.Wf (e : KrbError) : Prop := (∀ t ∈ e.ctime, TimeOk t) ∧ TimeOk e.stime

def EncKrbPrivPart.Wf (p : EncKrbPrivPart) : Prop := ∀ t ∈ p.timestamp, TimeOk t

structure Codecs.Lawful (c : Codecs) : Prop where
  apReq : c.apReq.Lawful fun _ => True
  encTicketPart : c.encTicketPart.Lawful EncTicketPart.Wf
  authenticator : c.authenticator.Lawful Authenticator.Wf
  encAsRepPart : c.encAsRepPart.Lawful EncKdcRepPart.Wf
  encTgsRepPart : c.encTgsRepPart.Lawful EncKdcRepPart.Wf
  encryptedData : c.encryptedData.Lawful fun _ => True
  paEncTsEnc : c.paEncTsEnc.Lawful PaEncTsEnc.Wf
  etypeInfo2 : c.etypeInfo2.Lawful fun _ => True
  methodData : c.methodData.Lawful fun _ => True
  authorizationData : c.authorizationData.Lawful fun _ => True
  apRep : c.apRep.Lawful fun _ => True
  encApRepPart : c.encApRepPart.Lawful EncApRepPart.Wf
  krbError : c.krbError.Lawful KrbError.Wf
  krbPriv : c.krbPriv.Lawful fun _ => True
  encKrbPrivPart : c.encKrbPrivPart.Lawful EncKrbPrivPart.Wf
  chgPwdData : c.chgPwdData.Lawful fun _ => True

structure Platform where
  cipher : Cipher
  der : Codecs
  /-- `{:?}` of a string. -/
  debugStr : Str → Str

structure Platform.Lawful (P : Platform) : Prop where
  cipher : P.cipher.Lawful
  der : P.der.Lawful

def EncTicketPart.atEpoch (flags : TicketFlags) (key : EncryptionKey) (crealm : Realm)
    (cname : PrincipalName) : EncTicketPart :=
  ⟨flags, key, crealm, cname, ⟨0, []⟩, 0, none, 0, none, none, none⟩

theorem Platform.Lawful.exists_sealed {P : Platform} (hP : P.Lawful) {e : Enctype} {k : Bytes}
    {u : UInt32} (hopens : P.cipher.Opens e k u) (flags : TicketFlags) (key : EncryptionKey)
    (crealm : Realm) (cname : PrincipalName) :
    ∃ c b, P.cipher.decrypt e k u c = .ok b ∧
      P.der.encTicketPart.decode b = .ok (.atEpoch flags key crealm cname) := by
  obtain ⟨s, hs⟩ := hP.cipher.exists_draw
  obtain ⟨b, _, hb⟩ := hP.der.encTicketPart.exists_encode (.atEpoch flags key crealm cname)
    ⟨timeOk_zero, nofun, timeOk_zero, nofun⟩
  obtain ⟨c, hc⟩ := hs.encrypt b hopens
  exact ⟨c, b, hP.cipher.decrypt_encrypt hc, hb⟩

structure Env where
  clock : Clock
  draw : Nat → Nat

def Codecs.unary : Codecs where
  apReq := .unary
  encTicketPart := .unary
  authenticator := .unary
  encAsRepPart := .unary
  encTgsRepPart := .unary
  encryptedData := .unary
  paEncTsEnc := .unary
  etypeInfo2 := .unary
  methodData := .unary
  authorizationData := .unary
  apRep := .unary
  encApRepPart := .unary
  krbError := .unary
  krbPriv := .unary
  encKrbPrivPart := .unary
  chgPwdData := .unary

theorem Codecs.unary_lawful : Codecs.unary.Lawful := by
  constructor <;> exact Codec.unary_lawful _

def Platform.ideal : Platform := ⟨.ideal, .unary, id⟩

theorem Platform.ideal_lawful : Platform.ideal.Lawful :=
  ⟨Cipher.ideal_lawful, Codecs.unary_lawful⟩

def Clock.stopped (t : Int) (h₀ : 0 ≤ t) (h : t < 253370764800 * nanosPerSec) : Clock :=
  ⟨fun _ => t, fun _ => ⟨h₀, h⟩⟩

def Clock.epoch : Clock := .stopped 0 (by decide) (by decide)

end IronDirectory.Kerberos
