import IronDirectory.Defs.Base.Codec
import IronDirectory.Defs.Base.Octets
import Mathlib.Data.Nat.Digits.Defs

universe u v

namespace IronDirectory.Base

structure Code (α : Type u) where
  write : α → Bytes
  read : Bytes → Option (α × Bytes)
  read_write : ∀ a rest, read (write a ++ rest) = some (a, rest)

namespace Code

variable {α : Type u} {β : Type v}

section Combinators

def via (c : Code β) (f : α → β) (g : β → Option α) (h : ∀ a, g (f a) = some a) : Code α where
  write a := c.write (f a)
  read bs := (c.read bs).bind fun r => (g r.1).map fun a => (a, r.2)
  read_write := by
    intro a rest
    rw [c.read_write, Option.bind_some, h, Option.map_some]

def pair (c : Code α) (d : Code β) : Code (α × β) where
  write p := c.write p.1 ++ d.write p.2
  read bs := (c.read bs).bind fun r => (d.read r.2).map fun q => ((r.1, q.1), q.2)
  read_write := by
    intro p rest
    rw [List.append_assoc, c.read_write, Option.bind_some, d.read_write, Option.map_some]

def option (c : Code α) : Code (Option α) where
  write
    | none => [0]
    | some a => 1 :: c.write a
  read
    | [] => none
    | b :: bs => if b = 0 then some (none, bs) else (c.read bs).map fun r => (some r.1, r.2)
  read_write := by
    intro o rest
    cases o with
    | none => rfl
    | some a =>
      have hread := c.read_write a rest
      simp [hread]

def writeList (c : Code α) : List α → Bytes
  | [] => [0]
  | a :: as => 1 :: (c.write a ++ writeList c as)

def readList (c : Code α) : Nat → Bytes → Option (List α × Bytes)
  | 0, _ => none
  | _ + 1, [] => none
  | n + 1, b :: bs =>
    if b = 0 then some ([], bs)
    else (c.read bs).bind fun r => (readList c n r.2).map fun q => (r.1 :: q.1, q.2)

theorem readList_writeList (c : Code α) (as : List α) (rest : Bytes) {n : Nat}
    (h : as.length < n) : readList c n (writeList c as ++ rest) = some (as, rest) := by
  induction as generalizing n with
  | nil =>
    obtain ⟨n, rfl⟩ := Nat.exists_eq_succ_of_ne_zero (Nat.ne_zero_of_lt h)
    rfl
  | cons a as ih =>
    obtain ⟨n, rfl⟩ := Nat.exists_eq_succ_of_ne_zero (Nat.ne_zero_of_lt h)
    have hrest := ih (Nat.succ_lt_succ_iff.mp h)
    rw [writeList, List.cons_append, List.append_assoc, readList, if_neg (by decide), c.read_write,
      Option.bind_some, hrest, Option.map_some]

theorem lt_length_writeList (c : Code α) (as : List α) : as.length < (writeList c as).length := by
  induction as with
  | nil => exact Nat.one_pos
  | cons a as ih =>
    rw [writeList, List.length_cons, List.length_cons, List.length_append]
    omega

def list (c : Code α) : Code (List α) where
  write := writeList c
  read bs := readList c bs.length bs
  read_write := by
    intro as rest
    apply readList_writeList
    have hlt := lt_length_writeList c as
    rw [List.length_append]
    omega

end Combinators

section Numbers

def writeNat (n : Nat) : Bytes :=
  if n < 128 then [UInt8.ofNat n] else UInt8.ofNat (n % 128 + 128) :: writeNat (n / 128)

def readNat : Bytes → Option (Nat × Bytes)
  | [] => none
  | b :: bs =>
    if b.toNat < 128 then some (b.toNat, bs)
    else (readNat bs).map fun r => (b.toNat - 128 + 128 * r.1, r.2)

theorem readNat_writeNat (n : Nat) (rest : Bytes) : readNat (writeNat n ++ rest) = some (n, rest) := by
  induction n using writeNat.induct with
  | case1 n hn =>
    have hb : (UInt8.ofNat n).toNat = n := by
      rw [UInt8.toNat_ofNat']
      omega
    rw [writeNat, if_pos hn, List.singleton_append, readNat, hb, if_pos hn]
  | case2 n hn ih =>
    have hb : (UInt8.ofNat (n % 128 + 128)).toNat = n % 128 + 128 := by
      rw [UInt8.toNat_ofNat']
      omega
    have hback : n % 128 + 128 - 128 + 128 * (n / 128) = n := by omega
    rw [writeNat, if_neg hn, List.cons_append, readNat, hb, if_neg (by omega), ih,
      Option.map_some, hback]

def nat : Code Nat := ⟨writeNat, readNat, readNat_writeNat⟩

theorem length_writeNat_le {n k : Nat} (h : n < 128 ^ (k + 1)) : (writeNat n).length ≤ k + 1 := by
  induction k generalizing n with
  | zero =>
    rw [writeNat, if_pos (by simpa using h)]
    rfl
  | succ k ih =>
    rw [writeNat]
    split
    · exact Nat.le_add_left 1 _
    · rw [List.length_cons]
      apply Nat.succ_le_succ
      apply ih
      rw [Nat.div_lt_iff_lt_mul (by decide)]
      rwa [pow_succ] at h

def octets : Code Bytes where
  write bs := writeNat bs.length ++ bs
  read bs := (readNat bs).bind fun r =>
    if r.1 ≤ r.2.length then some (r.2.take r.1, r.2.drop r.1) else none
  read_write := by
    intro bs rest
    rw [List.append_assoc, readNat_writeNat, Option.bind_some]
    simp

theorem length_octets_le {bs : Bytes} (h : bs.length < 2 ^ 28) :
    (octets.write bs).length ≤ bs.length + 4 := by
  have hnumber : (writeNat bs.length).length ≤ 4 := length_writeNat_le (by simpa using h)
  change (writeNat bs.length ++ bs).length ≤ _
  rw [List.length_append]
  omega

theorem le_length_octets (bs : Bytes) : bs.length ≤ (octets.write bs).length := by
  change _ ≤ (writeNat bs.length ++ bs).length
  rw [List.length_append]
  omega

def number : Code Nat :=
  octets.via (fun n => (Nat.digits 256 n).map UInt8.ofNat)
    (fun bs => some (Nat.ofDigits 256 (bs.map UInt8.toNat)))
    (by
      intro n
      have hdigits : ((Nat.digits 256 n).map UInt8.ofNat).map UInt8.toNat = Nat.digits 256 n := by
        rw [List.map_map]
        conv_rhs => rw [← List.map_id (Nat.digits 256 n)]
        refine List.map_congr_left fun d hd => ?_
        have hlt := Nat.digits_lt_base (by decide) hd
        simp only [Function.comp_apply, UInt8.toNat_ofNat', id]
        omega
      rw [hdigits, Nat.ofDigits_digits])

theorem length_number_le {n k : Nat} (hn : n < 256 ^ k) (hk : k < 2 ^ 28) :
    (number.write n).length ≤ k + 4 := by
  have hdigits : (Nat.digits 256 n).length ≤ k := by
    rwa [Nat.digits_length_le_iff (by decide)]
  have hle : (octets.write ((Nat.digits 256 n).map UInt8.ofNat)).length ≤
      ((Nat.digits 256 n).map UInt8.ofNat).length + 4 := by
    apply length_octets_le
    rw [List.length_map]
    omega
  rw [List.length_map] at hle
  exact hle.trans (by omega)

def int : Code Int :=
  number.via (fun z => if 0 ≤ z then 2 * z.natAbs else 2 * z.natAbs + 1)
    (fun n => some (if n % 2 = 0 then Int.ofNat (n / 2) else -Int.ofNat (n / 2)))
    (by
      intro z
      split
      · have heven : 2 * z.natAbs % 2 = 0 := by omega
        have hhalf : 2 * z.natAbs / 2 = z.natAbs := by omega
        rw [if_pos heven, hhalf]
        simp only [Int.ofNat_eq_natCast, Option.some.injEq]
        omega
      · have hodd : ¬ (2 * z.natAbs + 1) % 2 = 0 := by omega
        have hhalf : (2 * z.natAbs + 1) / 2 = z.natAbs := by omega
        rw [if_neg hodd, hhalf]
        simp only [Int.ofNat_eq_natCast, Option.some.injEq]
        omega)

theorem length_int_le {z : Int} {k : Nat} (hz : z.natAbs < 256 ^ k) (hk : k + 1 < 2 ^ 28) :
    (int.write z).length ≤ k + 5 := by
  have hn : (if 0 ≤ z then 2 * z.natAbs else 2 * z.natAbs + 1) < 256 ^ (k + 1) := by
    rw [pow_succ]
    split <;> omega
  exact length_number_le hn hk

end Numbers

def codec (c : Code α) : Codec α where
  encode a := .ok (c.write a)
  decode bs :=
    match c.read bs with
    | some (a, []) => .ok a
    | _ => .error "malformed"

theorem decode_write (c : Code α) (a : α) : c.codec.decode (c.write a) = .ok a := by
  have hread := c.read_write a []
  rw [List.append_nil] at hread
  simp only [codec, hread]

theorem codec_lawful (c : Code α) (wf : α → Prop) : c.codec.Lawful wf where
  exists_encode := fun a _ => ⟨_, rfl, c.decode_write a⟩

end Code

end IronDirectory.Base
