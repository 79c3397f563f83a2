import IronDirectory.Defs.Base.Text
import Mathlib.Tactic.IntervalCases
import Mathlib.Tactic.SplitIfs

namespace IronDirectory.Base.Utf8

theorem start_ofNat {n : Nat} (hn : n < 256) : start (UInt8.ofNat n) =
    if n < 0x80 then .char (Char.ofNat n)
    else if 0xC2 ≤ n ∧ n ≤ 0xDF then .more ⟨1, n - 0xC0, 0x80, 0xBF⟩
    else if n = 0xE0 then .more ⟨2, 0, 0xA0, 0xBF⟩
    else if n = 0xED then .more ⟨2, 0xD, 0x80, 0x9F⟩
    else if 0xE1 ≤ n ∧ n ≤ 0xEF then .more ⟨2, n - 0xE0, 0x80, 0xBF⟩
    else if n = 0xF0 then .more ⟨3, 0, 0x90, 0xBF⟩
    else if n = 0xF4 then .more ⟨3, 4, 0x80, 0x8F⟩
    else if 0xF1 ≤ n ∧ n ≤ 0xF3 then .more ⟨3, n - 0xF0, 0x80, 0xBF⟩
    else .bad := by
  simp only [start, Bool.and_eq_true, decide_eq_true_eq, beq_iff_eq, UInt8.lt_iff_toNat_lt,
    UInt8.le_iff_toNat_le, ← UInt8.toNat_inj, UInt8.toNat_ofNat', Nat.reducePow,
    Nat.mod_eq_of_lt hn, UInt8.reduceToNat]

theorem next_ofNat (p : Partial) {n : Nat} (hn : n < 256) : p.next (UInt8.ofNat n) =
    if p.lo.toNat ≤ n ∧ n ≤ p.hi.toNat then
      if p.due ≤ 1 then .char (Char.ofNat (p.acc * 64 + (n - 0x80)))
      else .more ⟨p.due - 1, p.acc * 64 + (n - 0x80), 0x80, 0xBF⟩
    else .bad := by
  simp only [Partial.next, Bool.and_eq_true, decide_eq_true_eq, UInt8.le_iff_toNat_le,
    UInt8.toNat_ofNat', Nat.reducePow, Nat.mod_eq_of_lt hn]

theorem lossy_more {b : UInt8} {p : Partial} (h : start b = .more p) (bs : Bytes) :
    lossy none (b :: bs) = lossy (some p) bs := by
  rw [lossy, h]

theorem lossy_next {p : Partial} {n : Nat} (hlo : p.lo.toNat ≤ n) (hhi : n ≤ p.hi.toNat)
    (hdue : 1 < p.due) (bs : Bytes) : lossy (some p) (UInt8.ofNat n :: bs) =
      lossy (some ⟨p.due - 1, p.acc * 64 + (n - 0x80), 0x80, 0xBF⟩) bs := by
  have hn : n < 256 := Nat.lt_of_le_of_lt hhi p.hi.toNat_lt
  rw [lossy, next_ofNat p hn, if_pos ⟨hlo, hhi⟩, if_neg (Nat.not_le.mpr hdue)]

theorem lossy_last {p : Partial} {n : Nat} (hlo : p.lo.toNat ≤ n) (hhi : n ≤ p.hi.toNat)
    (hdue : p.due ≤ 1) (bs : Bytes) : lossy (some p) (UInt8.ofNat n :: bs) =
      Char.ofNat (p.acc * 64 + (n - 0x80)) :: lossy none bs := by
  have hn : n < 256 := Nat.lt_of_le_of_lt hhi p.hi.toNat_lt
  rw [lossy, next_ofNat p hn, if_pos ⟨hlo, hhi⟩, if_pos hdue]

theorem ofNat_eq_of_toNat {c : Char} {n : Nat} (h : n = c.val.toNat) : Char.ofNat n = c := by
  rw [h]
  exact Char.ofNat_toNat c

theorem start_two {n : Nat} (h : 2 ≤ n) (h' : n < 32) :
    start (UInt8.ofNat (n + 192)) = .more ⟨1, n, 0x80, 0xBF⟩ := by
  rw [start_ofNat (by omega), if_neg (by omega), if_pos (by omega), Nat.add_sub_cancel]

theorem start_three {n : Nat} (h : n < 16) : start (UInt8.ofNat (n + 224)) =
    .more ⟨2, n, if n = 0 then 0xA0 else 0x80, if n = 13 then 0x9F else 0xBF⟩ := by
  interval_cases n <;> rfl

theorem start_four {n : Nat} (h : n < 5) : start (UInt8.ofNat (n + 240)) =
    .more ⟨3, n, if n = 0 then 0x90 else 0x80, if n = 4 then 0x8F else 0xBF⟩ := by
  interval_cases n <;> rfl

theorem lossy_encodeChar (c : Char) (bs : Bytes) :
    lossy none (String.utf8EncodeChar c ++ bs) = c :: lossy none bs := by
  have hvalid : c.val.toNat < 0xD800 ∨ 0xDFFF < c.val.toNat ∧ c.val.toNat < 0x110000 := c.valid
  unfold String.utf8EncodeChar
  simp only
  split_ifs with h₁ h₂ h₃
  · have hstart : start (UInt8.ofNat c.val.toNat) = .char c := by
      rw [start_ofNat (by omega), if_pos (by omega), ofNat_eq_of_toNat rfl]
    rw [List.cons_append, List.nil_append, lossy, hstart]
  · have hstart := start_two (n := c.val.toNat / 64 % 32) (by omega) (by omega)
    simp only [List.cons_append, List.nil_append]
    rw [lossy_more hstart, lossy_last (by simp) (by simp; omega) (by simp),
      ofNat_eq_of_toNat (c := c) (by simp only; omega)]
  · have hstart := start_three (n := c.val.toNat / 4096 % 16) (by omega)
    simp only [List.cons_append, List.nil_append]
    rw [lossy_more hstart, lossy_next ?lo ?hi (by simp), lossy_last (by simp) (by simp; omega)
      (by simp), ofNat_eq_of_toNat (c := c) (by simp only; omega)]
    case lo => split_ifs <;> simp only [UInt8.reduceToNat] <;> omega
    case hi => split_ifs <;> simp only [UInt8.reduceToNat] <;> omega
  · have hstart := start_four (n := c.val.toNat / 262144 % 8) (by omega)
    simp only [List.cons_append, List.nil_append]
    rw [lossy_more hstart, lossy_next ?lo ?hi (by simp), lossy_next (by simp) (by simp; omega)
      (by simp), lossy_last (by simp) (by simp; omega) (by simp),
      ofNat_eq_of_toNat (c := c) (by simp only; omega)]
    case lo => split_ifs <;> simp only [UInt8.reduceToNat] <;> omega
    case hi => split_ifs <;> simp only [UInt8.reduceToNat] <;> omega

@[simp] theorem fromUtf8Lossy_toUtf8 (s : Str) : fromUtf8Lossy s.toUtf8 = s := by
  induction s with
  | nil => rfl
  | cons c s ih =>
    rw [fromUtf8Lossy, Str.toUtf8, List.flatMap_cons, lossy_encodeChar]
    exact congrArg (c :: ·) ih

theorem length_lossy_le (p : Option Partial) (bs : Bytes) :
    (lossy p bs).length ≤ p.toList.length + bs.length := by
  fun_induction lossy p bs with
  | case1 => simp
  | case2 => simp
  | case3 b bs c _ ih => simpa using ih
  | case4 b bs q _ ih => simpa [Nat.add_comm] using ih
  | case5 b bs _ ih => simpa using ih
  | case6 p b bs c _ ih => simp at ih ⊢; omega
  | case7 p b bs q _ ih => simp at ih ⊢; omega
  | case8 p b bs _ c _ ih => simp at ih ⊢; omega
  | case9 p b bs _ q _ ih => simp at ih ⊢; omega
  | case10 p b bs _ _ ih => simp at ih ⊢; omega

theorem length_fromUtf8Lossy_le (bs : Bytes) : (fromUtf8Lossy bs).length ≤ bs.length := by
  simpa [fromUtf8Lossy] using length_lossy_le none bs

def Valid (bs : Bytes) : Prop := ∃ s : Str, s.toUtf8 = bs

theorem valid_iff {bs : Bytes} : Valid bs ↔ (fromUtf8Lossy bs).toUtf8 = bs := by
  constructor
  · rintro ⟨s, rfl⟩
    rw [fromUtf8Lossy_toUtf8]
  · intro h
    exact ⟨_, h⟩

instance (bs : Bytes) : Decidable (Valid bs) := decidable_of_iff _ valid_iff.symm

end IronDirectory.Base.Utf8
