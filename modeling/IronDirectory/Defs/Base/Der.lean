import IronDirectory.Defs.Base.Octets
import Mathlib.Data.Nat.Digits.Defs

namespace IronDirectory.Base.Der

def length (n : Nat) : Bytes :=
  if n < 128 then [UInt8.ofNat n]
  else
    let octets := (Nat.digits 256 n).reverse.map UInt8.ofNat
    UInt8.ofNat (0x80 + octets.length) :: octets

def tlv (tag : UInt8) (content : Bytes) : Bytes := tag :: length content.length ++ content

theorem tlv_short (tag : UInt8) {content : Bytes} (h : content.length < 128) :
    tlv tag content = tag :: UInt8.ofNat content.length :: content := by
  rw [tlv, length, if_pos h]
  rfl

/-- The content of a non-negative integer: its big-endian octets as a signed
number, with no octet to spare. -/
structure IsInteger (content : Bytes) (n : Nat) : Prop where
  value : Bytes.ofBe content = n
  sign : ∃ b ∈ content.head?, b.toNat < 0x80
  minimal : ∀ b rest, content = 0 :: b :: rest → 0x80 ≤ b.toNat

namespace IsInteger

variable {content content' : Bytes} {n : Nat}

theorem exists_cons (h : IsInteger content n) :
    ∃ b rest, content = b :: rest ∧ b.toNat < 0x80 := by
  obtain ⟨b, hhead, hb⟩ := h.sign
  cases content with
  | nil => cases hhead
  | cons c rest =>
    cases hhead
    exact ⟨b, rest, rfl, hb⟩

theorem lt (h : IsInteger content n) : n < 0x80 * 256 ^ (content.length - 1) := by
  obtain ⟨b, rest, rfl, hb⟩ := h.exists_cons
  have hrest := Bytes.ofBe_lt rest
  have hle := Nat.mul_le_mul_right (256 ^ rest.length) (show b.toNat ≤ 0x7f by omega)
  rw [← h.value, Bytes.ofBe_cons, List.length_cons, Nat.add_sub_cancel]
  omega

theorem le (h : IsInteger content n) (hlen : 2 ≤ content.length) :
    0x80 * 256 ^ (content.length - 2) ≤ n := by
  match content, h, hlen with
  | b :: c :: rest, h, _ =>
    have htwo : (b :: c :: rest).length - 2 = rest.length := rfl
    rw [← h.value, Bytes.ofBe_cons, Bytes.ofBe_cons, htwo, List.length_cons]
    by_cases hb : b = 0
    · have hc := Nat.mul_le_mul_right (256 ^ rest.length) (h.minimal c rest (by rw [hb]))
      omega
    · have hpos : 1 ≤ b.toNat := Nat.pos_of_ne_zero fun h0 => hb (UInt8.toNat_inj.mp h0)
      have hb' := Nat.mul_le_mul_right (256 ^ (rest.length + 1)) hpos
      rw [Nat.pow_succ] at hb' ⊢
      omega

theorem length_le_of_lt (h : IsInteger content n) {width : Nat} (hwidth : 1 ≤ width)
    (hn : n < 256 ^ width) : content.length ≤ width + 1 := by
  by_contra hlong
  have hle := h.le (by omega)
  have hpow : 256 ^ width ≤ 256 ^ (content.length - 2) :=
    Nat.pow_le_pow_right (by decide) (by omega)
  omega

theorem unique (h : IsInteger content n) (h' : IsInteger content' n) : content = content' := by
  have hlength : ∀ {v w : Bytes}, IsInteger v n → IsInteger w n → w.length ≤ v.length := by
    intro v w hv hw
    by_contra hlong
    obtain ⟨b, rest, rfl, _⟩ := hv.exists_cons
    rw [List.length_cons] at hlong
    have hlt := hv.lt
    have hle := hw.le (by omega)
    rw [List.length_cons, Nat.add_sub_cancel] at hlt
    have hpow : 256 ^ rest.length ≤ 256 ^ (w.length - 2) :=
      Nat.pow_le_pow_right (by decide) (by omega)
    omega
  have hlen : content.length = content'.length := Nat.le_antisymm (hlength h' h) (hlength h h')
  rw [← Bytes.be_ofBe content, ← Bytes.be_ofBe content', h.value, h'.value, hlen]

end IsInteger

end IronDirectory.Base.Der
