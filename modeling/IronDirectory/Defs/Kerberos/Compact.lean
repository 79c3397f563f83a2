import IronDirectory.Defs.Base.Code
import IronDirectory.Defs.Kerberos.Platform

namespace IronDirectory.Crypto.Cipher

open Base

def strict : Cipher :=
  { ideal with
    encrypt := fun s e k u p =>
      if k.length = e.keyLen then ideal.encrypt s e k u p else .error .bufferSize
    decrypt := fun e k u b =>
      if k.length = e.keyLen then ideal.decrypt e k u b else .error .bufferSize }

theorem strict_encrypt {s : Nat} {e : Enctype} {k : Bytes} {u : UInt32} {p b : Bytes} :
    strict.encrypt s e k u p = .ok b ↔ k.length = e.keyLen ∧ b = idealHeader e k u ++ p := by
  change (if k.length = e.keyLen then Except.ok (idealHeader e k u ++ p)
    else Except.error CryptoError.bufferSize) = Except.ok b ↔ _
  split
  · next hk => simp [hk, eq_comm]
  · next hk => simp [hk]

theorem error_of_strict_encrypt {s : Nat} {e : Enctype} {k : Bytes} {u : UInt32} {p : Bytes}
    {err : CryptoError} (h : strict.encrypt s e k u p = .error err) : err = .bufferSize := by
  change (if k.length = e.keyLen then Except.ok (idealHeader e k u ++ p)
    else Except.error CryptoError.bufferSize) = Except.error err at h
  split at h
  · cases h
  · cases h
    rfl

theorem strict_decrypt_header {e : Enctype} {k : Bytes} (hk : k.length = e.keyLen) (u : UInt32)
    (p : Bytes) : strict.decrypt e k u (idealHeader e k u ++ p) = .ok p := by
  change (if k.length = e.keyLen then ideal.decrypt e k u _ else .error _) = _
  rw [if_pos hk, ideal_decrypt_encrypt]

theorem length_of_strict_opens {e : Enctype} {k : Bytes} {u : UInt32} (h : strict.Opens e k u) :
    k.length = e.keyLen := by
  obtain ⟨b, p, hb⟩ := h
  change (if k.length = e.keyLen then ideal.decrypt e k u b else .error _) = _ at hb
  split at hb
  · assumption
  · cases hb

theorem strict_lawful : strict.Lawful where
  decrypt_encrypt := by
    intro s e k u p b h
    obtain ⟨hk, rfl⟩ := strict_encrypt.mp h
    exact strict_decrypt_header hk u p
  random_length := by
    intro s n b h
    exact ideal_lawful.random_length (s := s) h
  opens_of_length := fun u hk => ⟨_, [], strict_decrypt_header hk u []⟩
  exists_draw := by
    refine ⟨0, rfl, fun _ => ⟨_, rfl⟩, ?_⟩
    intro e k u p hopens
    exact ⟨_, strict_encrypt.mpr ⟨length_of_strict_opens hopens, rfl⟩⟩

theorem length_idealHeader (e : Enctype) (k : Bytes) (u : UInt32) :
    (idealHeader e k u).length = 6 + 2 * k.length := by
  simp only [idealHeader, List.length_cons, List.length_append, List.length_replicate]
  omega

theorem length_of_strict_encrypt {s : Nat} {e : Enctype} {k : Bytes} {u : UInt32} {p b : Bytes}
    (h : strict.encrypt s e k u p = .ok b) : b.length ≤ p.length + 70 := by
  obtain ⟨hk, rfl⟩ := strict_encrypt.mp h
  have hlen : e.keyLen ≤ 32 := by cases e <;> decide
  rw [List.length_append, length_idealHeader]
  omega

end IronDirectory.Crypto.Cipher

namespace IronDirectory.Kerberos.Compact

open Base Crypto

def int32 : Code Int32 :=
  Code.int.via Int32.toInt (fun z => some (Int32.ofInt z)) (by simp)

def uint32 : Code UInt32 :=
  Code.number.via UInt32.toNat (fun n => some (UInt32.ofNat n)) (by simp)

def bit : Code Bool :=
  Code.nat.via Bool.toNat (fun n => some (n == 1)) (by decide)

def generalString : Code GeneralString :=
  Code.octets.via GeneralString.bytes GeneralString.fromBytes GeneralString.fromBytes_bytes

def principalName : Code PrincipalName :=
  (int32.pair generalString.list).via (fun n => (n.type, n.string))
    (fun p => some ⟨p.1, p.2⟩) fun _ => rfl

def encryptedData : Code EncryptedData :=
  (int32.pair (uint32.option.pair Code.octets)).via (fun d => (d.etype, d.kvno, d.cipher))
    (fun p => some ⟨p.1, p.2.1, p.2.2⟩) fun _ => rfl

def encryptionKey : Code EncryptionKey :=
  (int32.pair Code.octets).via (fun k => (k.type, k.value)) (fun p => some ⟨p.1, p.2⟩) fun _ => rfl

def hostAddress : Code HostAddress :=
  (int32.pair Code.octets).via (fun a => (a.addrType, a.address)) (fun p => some ⟨p.1, p.2⟩)
    fun _ => rfl

def ticket : Code Ticket :=
  (Code.int.pair (generalString.pair (principalName.pair encryptedData))).via
    (fun t => (t.tktVno, t.realm, t.sname, t.encPart))
    (fun p => some ⟨p.1, p.2.1, p.2.2.1, p.2.2.2⟩) fun _ => rfl

def apReq : Code ApReq :=
  (Code.int.pair (Code.int.pair (bit.list.pair (ticket.pair encryptedData)))).via
    (fun r => (r.pvno, r.msgType, r.apOptions.bits, r.ticket, r.authenticator))
    (fun p => some ⟨p.1, p.2.1, ⟨p.2.2.1⟩, p.2.2.2.1, p.2.2.2.2⟩) fun _ => rfl

def apRep : Code ApRep :=
  (Code.int.pair (Code.int.pair encryptedData)).via (fun r => (r.pvno, r.msgType, r.encPart))
    (fun p => some ⟨p.1, p.2.1, p.2.2⟩) fun _ => rfl

def krbPriv : Code KrbPriv :=
  (Code.int.pair (Code.int.pair encryptedData)).via (fun r => (r.pvno, r.msgType, r.encPart))
    (fun p => some ⟨p.1, p.2.1, p.2.2⟩) fun _ => rfl

def encApRepPart : Code EncApRepPart :=
  (Code.int.pair (Code.int.pair (encryptionKey.option.pair uint32.option))).via
    (fun r => (r.ctime, r.cusec, r.subkey, r.seqNumber))
    (fun p => some ⟨p.1, p.2.1, p.2.2.1, p.2.2.2⟩) fun _ => rfl

def encKrbPrivPart : Code EncKrbPrivPart :=
  (Code.octets.pair (Code.int.option.pair (Code.int.option.pair (uint32.option.pair
    (hostAddress.option.pair hostAddress.option))))).via
    (fun r => (r.userData, r.timestamp, r.usec, r.seqNumber, r.sAddress, r.rAddress))
    (fun p => some ⟨p.1, p.2.1, p.2.2.1, p.2.2.2.1, p.2.2.2.2.1, p.2.2.2.2.2⟩) fun _ => rfl

def krbError : Code KrbError :=
  (Code.int.pair (Code.int.pair (Code.int.option.pair (Code.int.option.pair (Code.int.pair
    (Code.int.pair (int32.pair (generalString.option.pair (principalName.option.pair
      (generalString.pair (principalName.pair (generalString.option.pair
        Code.octets.option)))))))))))).via
    (fun e => (e.pvno, e.msgType, e.ctime, e.cusec, e.stime, e.susec, e.errorCode, e.crealm,
      e.cname, e.realm, e.sname, e.eText, e.eData))
    (fun p => some ⟨p.1, p.2.1, p.2.2.1, p.2.2.2.1, p.2.2.2.2.1, p.2.2.2.2.2.1, p.2.2.2.2.2.2.1,
      p.2.2.2.2.2.2.2.1, p.2.2.2.2.2.2.2.2.1, p.2.2.2.2.2.2.2.2.2.1, p.2.2.2.2.2.2.2.2.2.2.1,
      p.2.2.2.2.2.2.2.2.2.2.2.1, p.2.2.2.2.2.2.2.2.2.2.2.2⟩) fun _ => rfl

def codecs : Codecs :=
  { Codecs.unary with
    apReq := apReq.codec
    apRep := apRep.codec
    encApRepPart := encApRepPart.codec
    krbError := krbError.codec
    krbPriv := krbPriv.codec
    encKrbPrivPart := encKrbPrivPart.codec }

theorem codecs_lawful : codecs.Lawful :=
  { Codecs.unary_lawful with
    apReq := apReq.codec_lawful _
    apRep := apRep.codec_lawful _
    encApRepPart := encApRepPart.codec_lawful _
    krbError := krbError.codec_lawful _
    krbPriv := krbPriv.codec_lawful _
    encKrbPrivPart := encKrbPrivPart.codec_lawful _ }

def platform : Platform := ⟨.strict, codecs, id⟩

theorem platform_lawful : platform.Lawful := ⟨Cipher.strict_lawful, codecs_lawful⟩

section Lengths

theorem length_int32_le (v : Int32) : (int32.write v).length ≤ 9 := by
  apply Code.length_int_le
  · have hge := v.le_toInt
    have hlt := v.toInt_lt
    omega
  · decide

theorem length_uint32_le (v : UInt32) : (uint32.write v).length ≤ 8 :=
  Code.length_number_le v.toNat_lt (by decide)

theorem length_option_le {α : Type} {c : Code α} {n : Nat} (h : ∀ a, (c.write a).length ≤ n)
    (o : Option α) : (c.option.write o).length ≤ n + 1 := by
  cases o with
  | none => exact Nat.le_add_left 1 n
  | some a => exact Nat.succ_le_succ (h a)

theorem length_generalString_le {g : GeneralString} (h : g.bytes.length < 2 ^ 28) :
    (generalString.write g).length ≤ g.bytes.length + 4 := Code.length_octets_le h

theorem length_encryptedData_le {d : EncryptedData} (h : d.cipher.length < 2 ^ 28) :
    (encryptedData.write d).length ≤ d.cipher.length + 22 := by
  have htype := length_int32_le d.etype
  have hkvno := length_option_le length_uint32_le d.kvno
  have hcipher := Code.length_octets_le h
  change (int32.write d.etype ++ (uint32.option.write d.kvno ++ Code.octets.write d.cipher)).length ≤ _
  rw [List.length_append, List.length_append]
  omega

theorem length_apRep_le {r : ApRep} (hpvno : r.pvno.natAbs < 256) (htype : r.msgType.natAbs < 256)
    (h : r.encPart.cipher.length < 2 ^ 28) :
    (apRep.write r).length ≤ r.encPart.cipher.length + 34 := by
  have h₁ := Code.length_int_le (k := 1) hpvno (by decide)
  have h₂ := Code.length_int_le (k := 1) htype (by decide)
  have h₃ := length_encryptedData_le h
  change (Code.int.write r.pvno ++ (Code.int.write r.msgType ++
    encryptedData.write r.encPart)).length ≤ _
  rw [List.length_append, List.length_append]
  omega

theorem length_krbPriv_le {r : KrbPriv} (hpvno : r.pvno.natAbs < 256)
    (htype : r.msgType.natAbs < 256) (h : r.encPart.cipher.length < 2 ^ 28) :
    (krbPriv.write r).length ≤ r.encPart.cipher.length + 34 :=
  length_apRep_le (r := ⟨r.pvno, r.msgType, r.encPart⟩) hpvno htype h

theorem length_principalName_single {type : Int32} {g : GeneralString}
    (h : g.bytes.length < 2 ^ 28) :
    (principalName.write ⟨type, [g]⟩).length ≤ g.bytes.length + 15 := by
  have htype := length_int32_le type
  have hg := length_generalString_le h
  change (int32.write type ++ 1 :: (generalString.write g ++ [0])).length ≤ _
  rw [List.length_append, List.length_cons, List.length_append, List.length_singleton]
  omega

theorem length_principalName_pair {type : Int32} {g g' : GeneralString}
    (h : g.bytes.length < 2 ^ 28) (h' : g'.bytes.length < 2 ^ 28) :
    (principalName.write ⟨type, [g, g']⟩).length ≤ g.bytes.length + g'.bytes.length + 20 := by
  have htype := length_int32_le type
  have hg := length_generalString_le h
  have hg' := length_generalString_le h'
  change (int32.write type ++ 1 :: (generalString.write g ++ 1 ::
    (generalString.write g' ++ [0]))).length ≤ _
  rw [List.length_append, List.length_cons, List.length_append, List.length_cons,
    List.length_append, List.length_singleton]
  omega

end Lengths

end IronDirectory.Kerberos.Compact
