import IronDirectory.Defs.Ldap.Connection

/-! The length of the outer sequence, read with the machine's own words.  The
shift that is meant to notice a length too large never does. -/

namespace IronDirectory.Ldap.Framing

open Base
open Kdc (Fault)

inductive FramingError
  | io (e : Str)
  | unexpectedTag (tag : UInt8)
  | indefiniteLength
  | lengthOverflow
  | unexpectedEof
  | decode (e : Str)
  deriving DecidableEq

abbrev Usize := BitVec 64

def checkedShl (x : Usize) (bits : Nat) : Option Usize :=
  if bits < 64 then some (x <<< bits) else none

/-- Addition, which panics on overflow in a build that checks for it and wraps
in one that does not. -/
def add (checked : Bool) (x y : Usize) : Except (Fault FramingError) Usize :=
  if checked ∧ 2 ^ 64 ≤ x.toNat + y.toNat then .error .panic else .ok (x + y)

def pushOctet (length : Usize) (b : UInt8) : Except (Fault FramingError) Usize :=
  match checkedShl length 8 with
  | none => .error (.error .lengthOverflow)
  | some shifted => .ok (shifted ||| BitVec.ofNat 64 b.toNat)

def berMessageLen (checked : Bool) : Bytes → Except (Fault FramingError) (Option Usize)
  | [] => .ok none
  | tag :: rest =>
    if tag ≠ 0x30 then .error (.error (.unexpectedTag tag))
    else
      match rest with
      | [] => .ok none
      | first :: body =>
        if first &&& 0x80 = 0 then .ok (some (2 + BitVec.ofNat 64 first.toNat))
        else
          let numOctets := (first &&& 0x7f).toNat
          if numOctets = 0 then .error (.error .indefiniteLength)
          else if body.length < numOctets then .ok none
          else do
            let length ← (body.take numOctets).foldlM pushOctet 0
            let total ← add checked (2 + BitVec.ofNat 64 numOctets) length
            return some total

section Words

theorem and_128_eq_zero_iff (b : UInt8) : b &&& 0x80 = 0 ↔ b.toNat < 0x80 := by
  have hall : ∀ n : Fin 256, n.val &&& 0x80 = 0 ↔ n.val < 0x80 := by decide +kernel
  rw [← UInt8.toNat_inj, UInt8.toNat_and]
  exact hall ⟨b.toNat, b.toNat_lt⟩

theorem toNat_and_127 (b : UInt8) : (b &&& 0x7f).toNat = b.toNat % 0x80 := by
  rw [UInt8.toNat_and]
  exact Nat.and_two_pow_sub_one_eq_mod b.toNat 7

-- The low eight bits of the shifted word are clear, so the octet is added.
theorem toNat_pushed (x : Usize) (b : UInt8) :
    (x <<< 8 ||| BitVec.ofNat 64 b.toNat).toNat = (b.toNat + 256 * x.toNat) % 2 ^ 64 := by
  have hb : b.toNat < 2 ^ 8 := b.toNat_lt
  have hshift : x.toNat <<< 8 % 2 ^ 64 = 2 ^ 8 * (x.toNat % 2 ^ 56) := by
    rw [Nat.shiftLeft_eq]
    omega
  have hoctet : b.toNat % 2 ^ 64 = b.toNat := Nat.mod_eq_of_lt (by omega)
  rw [BitVec.toNat_or, BitVec.toNat_shiftLeft, BitVec.toNat_ofNat, hshift, hoctet,
    ← Nat.two_pow_add_eq_or_of_lt hb]
  omega

theorem pushOctet_eq (x : Usize) (b : UInt8) :
    pushOctet x b = .ok (x <<< 8 ||| BitVec.ofNat 64 b.toNat) := rfl

theorem foldlM_pushOctet (octets : Bytes) {x : Usize} {n : Nat}
    (h : x.toNat ≡ n [MOD 2 ^ 64]) :
    ∃ y, octets.foldlM pushOctet x = .ok y ∧
      y.toNat ≡ octets.foldl (fun acc b => b.toNat + 256 * acc) n [MOD 2 ^ 64] := by
  induction octets generalizing x n with
  | nil => exact ⟨x, rfl, h⟩
  | cons b octets ih =>
    have hpush : (x <<< 8 ||| BitVec.ofNat 64 b.toNat).toNat ≡ b.toNat + 256 * n [MOD 2 ^ 64] := by
      rw [toNat_pushed]
      exact (Nat.mod_modEq _ _).trans ((h.mul_left 256).add_left b.toNat)
    obtain ⟨y, hy, hmod⟩ := ih hpush
    exact ⟨y, by rw [List.foldlM_cons, pushOctet_eq]; exact hy, hmod⟩

theorem readLength (octets : Bytes) :
    ∃ y, octets.foldlM pushOctet 0 = .ok y ∧ y.toNat = Bytes.ofBe octets % 2 ^ 64 := by
  obtain ⟨y, hy, hmod⟩ := foldlM_pushOctet octets (x := 0) (n := 0) rfl
  refine ⟨y, hy, ?_⟩
  rw [Bytes.ofBe, Bytes.ofLe, List.foldr_reverse, ← Nat.mod_eq_of_lt y.isLt]
  exact hmod

end Words

theorem berMessageLen_unchecked (buf : Bytes) :
    ((berMessageLen false buf).mapError fun _ => ()).map (Option.map BitVec.toNat) =
      Ldap.berMessageLen buf := by
  match buf with
  | [] => rfl
  | [tag] =>
    simp only [berMessageLen, Ldap.berMessageLen]
    split <;> rfl
  | tag :: first :: body =>
    obtain ⟨length, hread, hlength⟩ := readLength (body.take (first.toNat % 0x80))
    have hfirst := first.toNat_lt
    simp only [berMessageLen, Ldap.berMessageLen, and_128_eq_zero_iff, toNat_and_127, hread]
    split
    · rfl
    · split
      · simp [Except.mapError, Except.map]
        omega
      · split
        · rfl
        · split
          · rfl
          · simp [Except.mapError, Except.map, add, BitVec.toNat_add, hlength]

theorem berMessageLen_short (checked : Bool) {first : UInt8} (h : first.toNat < 0x80)
    (rest : Bytes) : berMessageLen checked (0x30 :: first :: rest) =
      .ok (some (BitVec.ofNat 64 (2 + first.toNat))) := by
  simp [berMessageLen, and_128_eq_zero_iff, h, BitVec.ofNat_add]

theorem berMessageLen_long (checked : Bool) {octets : Bytes} (rest : Bytes)
    (h : 1 ≤ octets.length) (h' : octets.length ≤ 127) :
    ∃ length : Usize, length.toNat = Bytes.ofBe octets % 2 ^ 64 ∧
      berMessageLen checked (0x30 :: UInt8.ofNat (0x80 + octets.length) :: (octets ++ rest)) =
        (add checked (BitVec.ofNat 64 (2 + octets.length)) length).map some := by
  obtain ⟨length, hread, hlength⟩ := readLength octets
  have hfirst : (UInt8.ofNat (0x80 + octets.length)).toNat = 0x80 + octets.length := by
    rw [UInt8.toNat_ofNat']
    omega
  have hnum : (0x80 + octets.length) % 0x80 = octets.length := by omega
  refine ⟨length, hlength, ?_⟩
  rw [berMessageLen, if_neg (by simp)]
  simp only [and_128_eq_zero_iff, toNat_and_127, hfirst, hnum]
  rw [if_neg (by omega), if_neg (by omega), if_neg (by simp), List.take_left', hread]
  · rw [Outcome.ok_bind, BitVec.ofNat_add]
    cases add checked (BitVec.ofNat 64 2 + BitVec.ofNat 64 octets.length) length <;> rfl
  · rfl

inductive Header : Bytes → Nat → Nat → Prop
  | short {first : UInt8} (rest : Bytes) : first.toNat < 0x80 →
    Header (0x30 :: first :: rest) 2 first.toNat
  | long {octets : Bytes} (rest : Bytes) : 1 ≤ octets.length → octets.length ≤ 127 →
    Header (0x30 :: UInt8.ofNat (0x80 + octets.length) :: (octets ++ rest)) (2 + octets.length)
      (Bytes.ofBe octets)

theorem add_eq_ok {checked : Bool} {x y : Usize} (h : x.toNat + y.toNat < 2 ^ 64) :
    add checked x y = .ok (BitVec.ofNat 64 (x.toNat + y.toNat)) := by
  rw [add, if_neg (by omega), BitVec.ofNat_add, BitVec.ofNat_toNat, BitVec.ofNat_toNat]
  simp

theorem add_ne_lengthOverflow (checked : Bool) (x y : Usize) :
    (add checked x y).map some ≠ .error (.error .lengthOverflow) := by
  rw [add]
  split <;> nofun

/-- A complete header is read right exactly when the message length it
announces fits a word: a larger one is not rejected. -/
theorem berMessageLen_exact_iff (checked : Bool) {buf : Bytes} {size length : Nat}
    (h : Header buf size length) :
    berMessageLen checked buf =
        (if size + length < 2 ^ 64 then .ok (some (BitVec.ofNat 64 (size + length)))
          else .error (.error .lengthOverflow)) ↔
      size + length < 2 ^ 64 := by
  cases h with
  | short rest hfirst =>
    rw [berMessageLen_short checked hfirst, if_pos (by omega)]
    simp only [true_iff]
    omega
  | @long octets rest hlow hhigh =>
    obtain ⟨value, hvalue, hlen⟩ := berMessageLen_long checked rest hlow hhigh
    rw [hlen]
    split
    · next hfits =>
      have hsize : (BitVec.ofNat 64 (2 + octets.length)).toNat = 2 + octets.length := by
        rw [BitVec.toNat_ofNat]
        omega
      have hexact : value.toNat = Bytes.ofBe octets := by omega
      rw [add_eq_ok (by omega), hsize, hexact]
      exact ⟨fun _ => hfits, fun _ => rfl⟩
    · next hfits =>
      exact ⟨fun heq => absurd heq (add_ne_lengthOverflow checked _ _), fun hlt => absurd hlt hfits⟩

theorem berMessageLen_two_octets :
    berMessageLen true [0x30, 0x82, 0x01, 0x00] = .ok (some 260) :=
  (berMessageLen_exact_iff true (@Header.long [0x01, 0x00] [] (by decide) (by decide))).mpr
    (by decide)

/-- Nine length octets: the first is shifted out and the rest is believed.
Eight of them: the total wraps, or the reader panics. -/
theorem berMessageLen_truncated :
    Header [0x30, 0x89, 1, 0, 0, 0, 0, 0, 0, 0, 5] 11 (2 ^ 64 + 5) ∧
      berMessageLen false [0x30, 0x89, 1, 0, 0, 0, 0, 0, 0, 0, 5] = .ok (some 16) ∧
      berMessageLen true [0x30, 0x89, 1, 0, 0, 0, 0, 0, 0, 0, 5] = .ok (some 16) ∧
      Header (0x30 :: 0x88 :: List.replicate 8 0xff) 10 (2 ^ 64 - 1) ∧
      berMessageLen false (0x30 :: 0x88 :: List.replicate 8 0xff) = .ok (some 9) ∧
      berMessageLen true (0x30 :: 0x88 :: List.replicate 8 0xff) = .error .panic := by
  refine ⟨?_, by decide +kernel, by decide +kernel, ?_, by decide +kernel, by decide +kernel⟩
  · exact @Header.long [1, 0, 0, 0, 0, 0, 0, 0, 5] [] (by decide) (by decide)
  · exact @Header.long (List.replicate 8 0xff) [] (by decide) (by decide)

end IronDirectory.Ldap.Framing
