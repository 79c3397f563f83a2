import IronDirectory.Defs.Base.Numeral

namespace IronDirectory.Base

/-- What a machine's memory can hold: a slice is at most `isize::MAX` bytes. -/
abbrev Slice := { bs : Bytes // bs.length < 2 ^ 63 }

namespace Bytes

@[simp] theorem length_be (width n : Nat) : (be width n).length = width := by simp [be]

@[simp] theorem ofLe_nil : ofLe [] = 0 := rfl

@[simp] theorem ofLe_cons (b : UInt8) (bs : Bytes) : ofLe (b :: bs) = b.toNat + 256 * ofLe bs := rfl

theorem ofLe_lt (bs : Bytes) : ofLe bs < 256 ^ bs.length := by
  induction bs with
  | nil => exact Nat.one_pos
  | cons b bs ih =>
    have hb : b.toNat < 256 := b.toNat_lt
    rw [ofLe_cons, List.length_cons, Nat.pow_succ']
    omega

theorem le_ofLe (bs : Bytes) : le bs.length (ofLe bs) = bs := by
  induction bs with
  | nil => rfl
  | cons b bs ih =>
    have hb : b.toNat < 256 := b.toNat_lt
    have hdiv : (b.toNat + 256 * ofLe bs) / 256 = ofLe bs := by omega
    have hbyte : UInt8.ofNat (b.toNat + 256 * ofLe bs) = b := by
      apply UInt8.toNat_inj.mp
      rw [UInt8.toNat_ofNat']
      omega
    rw [List.length_cons, ofLe_cons, le, hdiv, hbyte, ih]

theorem ofLe_append (xs ys : Bytes) : ofLe (xs ++ ys) = ofLe xs + 256 ^ xs.length * ofLe ys := by
  induction xs with
  | nil => simp
  | cons x xs ih =>
    rw [List.cons_append, ofLe_cons, ofLe_cons, ih, List.length_cons]
    ring

theorem ofLe_le_of_lt {width n : Nat} (h : n < 256 ^ width) : ofLe (le width n) = n := by
  rw [ofLe_le, Nat.mod_eq_of_lt h]

@[simp] theorem ofBe_nil : ofBe [] = 0 := rfl

theorem ofBe_append (xs ys : Bytes) : ofBe (xs ++ ys) = ofBe xs * 256 ^ ys.length + ofBe ys := by
  rw [ofBe, List.reverse_append, ofLe_append, List.length_reverse]
  simp only [ofBe]
  ring

theorem ofBe_cons (b : UInt8) (bs : Bytes) :
    ofBe (b :: bs) = b.toNat * 256 ^ bs.length + ofBe bs := by
  rw [show b :: bs = [b] ++ bs from rfl, ofBe_append]
  simp [ofBe]

theorem ofBe_lt (bs : Bytes) : ofBe bs < 256 ^ bs.length := by
  rw [← List.length_reverse]
  exact ofLe_lt bs.reverse

theorem ofBe_be (width n : Nat) : ofBe (be width n) = n % 256 ^ width := by
  rw [ofBe, be, List.reverse_reverse, ofLe_le]

theorem ofBe_be_of_lt {width n : Nat} (h : n < 256 ^ width) : ofBe (be width n) = n := by
  rw [ofBe_be, Nat.mod_eq_of_lt h]

theorem be_ofBe (bs : Bytes) : be bs.length (ofBe bs) = bs := by
  rw [be, ofBe, ← List.length_reverse, le_ofLe, List.reverse_reverse]

theorem ofBe_dropWhile_zero (bs : Bytes) : ofBe (bs.dropWhile (· == 0)) = ofBe bs := by
  induction bs with
  | nil => rfl
  | cons b bs ih =>
    rw [List.dropWhile_cons]
    split
    · next hb =>
      rw [ih, ofBe_cons, eq_of_beq hb]
      simp
    · rfl

theorem ofBe_replicate_zero (k : Nat) : ofBe (List.replicate k 0) = 0 := by
  induction k with
  | zero => rfl
  | succ k ih =>
    rw [List.replicate_succ, ofBe_cons, ih]
    simp

theorem pad_eq_be {width n : Nat} {bytes : Bytes} (hlen : bytes.length ≤ width)
    (hvalue : ofBe bytes = n) :
    List.replicate (width - bytes.length) 0 ++ bytes = be width n := by
  have hwidth : (List.replicate (width - bytes.length) (0 : UInt8) ++ bytes).length = width := by
    rw [List.length_append, List.length_replicate]
    omega
  have hnumber : ofBe (List.replicate (width - bytes.length) 0 ++ bytes) = n := by
    rw [ofBe_append, ofBe_replicate_zero, hvalue]
    simp
  rw [← be_ofBe (List.replicate (width - bytes.length) 0 ++ bytes), hwidth, hnumber]

end Bytes

end IronDirectory.Base
