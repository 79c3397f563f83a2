import IronDirectory.Defs.Base.Octets
import IronDirectory.Defs.Base.Rotation
import IronDirectory.Defs.Ldap.Gssapi

namespace IronDirectory.Ldap.Gssapi

open Base Crypto Outcome

def senderHeader (byAcceptor isSealed : Bool) (ec : Nat) (rrc : UInt16) (seq : UInt64) : Bytes :=
  tokIdWrap ++ [(if byAcceptor then 0x01 else 0) ||| (if isSealed then 0x02 else 0), 0xFF] ++
    Bytes.be 2 ec ++ Bytes.be 2 rrc.toNat ++ Bytes.be 8 seq.toNat

def wrapAs (byAcceptor : Bool) (c : Cipher) (draw : Nat) (enctype : Enctype) (sessionKey : Bytes)
    (usage : UInt32) (isSealed : Bool) (seq : UInt64) (plain : Bytes) : Except WrapError Bytes :=
  if isSealed then do
    let header := senderHeader byAcceptor true 0 0 seq
    let body ← (c.encrypt draw enctype sessionKey usage (plain ++ header)).mapError .crypto
    return header ++ body
  else do
    let mic ← (c.checksum enctype sessionKey usage
      (plain ++ senderHeader byAcceptor false 0 0 seq)).mapError .crypto
    return senderHeader byAcceptor false enctype.hmacLen 0 seq ++ plain ++ mic

theorem senderHeader_acceptor (isSealed : Bool) (ec : Nat) (seq : UInt64) :
    senderHeader true isSealed ec 0 seq = wrapHeader isSealed ec seq := by
  cases isSealed <;> rfl

theorem wrapAs_acceptor : wrapAs true = wrap := by
  funext c draw enctype sessionKey usage isSealed seq plain
  simp only [wrapAs, wrap, senderHeader_acceptor]

/-- What a sender does that rotates in place: the body moves right and the count
is written into the header. -/
def rotateToken (r : UInt16) (token : Bytes) : Bytes :=
  token.take 6 ++ Bytes.be 2 r.toNat ++ (token.take 16).drop 8 ++
    Lists.rotateRight r.toNat (token.drop 16)

theorem rotateToken_senderHeader (r rrc : UInt16) (byAcceptor isSealed : Bool) (ec : Nat)
    (seq : UInt64) (body : Bytes) :
    rotateToken r (senderHeader byAcceptor isSealed ec rrc seq ++ body) =
      senderHeader byAcceptor isSealed ec r seq ++ Lists.rotateRight r.toNat body := rfl

theorem unrotate_eq_rotate (rrc : Nat) (rest : Bytes) : unrotate rrc rest = rest.rotate rrc := by
  cases rest with
  | nil => simp [unrotate]
  | cons b rest => rw [List.rotate_eq_drop_append_take_mod, unrotate, if_neg (by simp)]

theorem unwrap_senderHeader (c : Cipher) (enctype : Enctype) (sessionKey : Bytes) (usage : UInt32)
    (byAcceptor isSealed : Bool) (ec : Nat) (r : UInt16) (seq : UInt64) (rest : Bytes) :
    unwrap c enctype sessionKey usage (senderHeader byAcceptor isSealed ec r seq ++ rest) =
      if isSealed then do
        let decrypted ← (c.decrypt enctype sessionKey usage (rest.rotate r.toNat)).mapError .crypto
        ensure (16 ≤ decrypted.length) .truncated
        ensure (decrypted.drop (decrypted.length - 16) = senderHeader byAcceptor true ec 0 seq)
          .headerMismatch
        return decrypted.take (decrypted.length - 16)
      else do
        let unrotated := rest.rotate r.toNat
        ensure (enctype.hmacLen ≤ unrotated.length) .truncated
        let plain := unrotated.take (unrotated.length - enctype.hmacLen)
        let mic := unrotated.drop (unrotated.length - enctype.hmacLen)
        let expected ← (c.checksum enctype sessionKey usage
          (plain ++ senderHeader byAcceptor false 0 0 seq)).mapError .crypto
        ensure (expected = mic) .badChecksum
        return plain := by
  set token := senderHeader byAcceptor isSealed ec r seq ++ rest
  have hlength : 16 ≤ token.length := by
    rw [List.length_append]
    exact Nat.le_add_right 16 rest.length
  have htokId : token.take 2 = tokIdWrap := rfl
  have hrrc : (token.drop 6).take 2 = Bytes.be 2 r.toNat := rfl
  have hcount : Bytes.ofBe ((token.drop 6).take 2) = r.toNat := by
    rw [hrrc]
    exact Bytes.ofBe_be_of_lt r.toNat_lt
  have hrest : token.drop 16 = rest := rfl
  have hflag : ((token.drop 2).headD 0).toNat / 2 % 2 = 1 ↔ isSealed = true := by
    change ((if byAcceptor then 0x01 else 0) ||| (if isSealed then 0x02 else 0) : UInt8).toNat
      / 2 % 2 = 1 ↔ isSealed = true
    cases byAcceptor <;> cases isSealed <;> decide
  have hcopy : token.take 6 ++ [0, 0] ++ (token.take 16).drop 8 =
    senderHeader byAcceptor isSealed ec 0 seq := rfl
  have hzeroed : token.take 4 ++ [0, 0, 0, 0] ++ (token.take 16).drop 8 =
    senderHeader byAcceptor isSealed 0 0 seq := rfl
  rw [unwrap, hcount, hrest, unrotate_eq_rotate, hcopy, hzeroed]
  simp only [ensure, hlength, htokId, hflag, if_true, ok_bind]
  cases isSealed <;> rfl

section

variable {c : Cipher}

end

end IronDirectory.Ldap.Gssapi
