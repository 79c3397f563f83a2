import IronDirectory.Defs.Base.Octets

namespace IronDirectory.Base

namespace Bytes

def bit (bs : Bytes) (j : Nat) : Bool := (bs.getD (j / 8) 0).toNat.testBit (7 - j % 8)

def bits (bs : Bytes) : List Bool := (List.range (8 * bs.length)).map (bit bs)

@[simp] theorem length_bits (bs : Bytes) : (bits bs).length = 8 * bs.length := by simp [bits]

theorem bits_append (xs ys : Bytes) : bits (xs ++ ys) = bits xs ++ bits ys := by
  have hlow : ∀ j < 8 * xs.length, bit (xs ++ ys) j = bit xs j := by
    intro j hj
    rw [bit, bit, List.getD_append _ _ _ _ (by omega)]
  have hhigh : ∀ j, bit (xs ++ ys) (8 * xs.length + j) = bit ys j := by
    intro j
    have hdiv : (8 * xs.length + j) / 8 - xs.length = j / 8 := by omega
    have hmod : (8 * xs.length + j) % 8 = j % 8 := by omega
    rw [bit, bit, List.getD_append_right _ _ _ _ (by omega), hdiv, hmod]
  rw [bits, List.length_append, Nat.mul_add, List.range_add, List.map_append, List.map_map]
  refine congrArg₂ (· ++ ·) (List.map_congr_left fun j hj => hlow j (List.mem_range.mp hj)) ?_
  exact List.map_congr_left fun j _ => hhigh j

theorem bits_drop {n : Nat} {bs : Bytes} (h : n ≤ bs.length) :
    bits (bs.drop n) = (bits bs).drop (8 * n) := by
  have hsplit := bits_append (bs.take n) (bs.drop n)
  rw [List.take_append_drop] at hsplit
  rw [hsplit, List.drop_left']
  rw [length_bits, List.length_take, Nat.min_eq_left h]

theorem bits_take {n : Nat} {bs : Bytes} (h : n ≤ bs.length) :
    bits (bs.take n) = (bits bs).take (8 * n) := by
  have hsplit := bits_append (bs.take n) (bs.drop n)
  rw [List.take_append_drop] at hsplit
  rw [hsplit, List.take_left']
  rw [length_bits, List.length_take, Nat.min_eq_left h]

end Bytes

namespace Bits

def value (bits : List Bool) : Nat := bits.foldl (fun acc b => 2 * acc + b.toNat) 0

theorem foldl_value (bits : List Bool) (acc : Nat) :
    bits.foldl (fun acc b => 2 * acc + b.toNat) acc = acc * 2 ^ bits.length + value bits := by
  induction bits generalizing acc with
  | nil => simp [value]
  | cons b bits ih =>
    have hfirst : value (b :: bits) = (2 * 0 + b.toNat) * 2 ^ bits.length + value bits := ih _
    rw [List.foldl_cons, ih, hfirst, List.length_cons, Nat.pow_succ]
    ring

theorem value_append (xs ys : List Bool) :
    value (xs ++ ys) = value xs * 2 ^ ys.length + value ys := by
  rw [value, List.foldl_append, foldl_value]
  rfl

theorem value_octet (b : UInt8) : value (Bytes.bits [b]) = b.toNat := by
  have hall : ∀ n : Fin 256, value ((List.range 8).map fun j => n.val.testBit (7 - j)) = n.val := by
    decide +kernel
  exact hall ⟨b.toNat, b.toNat_lt⟩

theorem value_bits (bs : Bytes) : value (Bytes.bits bs) = Bytes.ofBe bs := by
  induction bs with
  | nil => rfl
  | cons b bs ih =>
    have hcons := Bytes.bits_append [b] bs
    rw [List.singleton_append] at hcons
    rw [hcons, value_append, value_octet, ih, Bytes.length_bits, Bytes.ofBe_cons, Nat.pow_mul]

end Bits

end IronDirectory.Base
