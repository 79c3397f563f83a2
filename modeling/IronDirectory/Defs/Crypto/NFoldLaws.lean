import IronDirectory.Defs.Base.Bits
import IronDirectory.Defs.Base.Rotation
import IronDirectory.Defs.Crypto.NFold

namespace IronDirectory.Crypto.NFold

open Base

namespace Rfc3961

def replicated (m : Nat) (bits : List Bool) : List Bool :=
  (List.range (Nat.lcm bits.length m / bits.length)).flatMap fun k => Lists.rotateRight (13 * k) bits

def blocks (m : Nat) (bits : List Bool) : List Nat :=
  (List.range (bits.length / m)).map fun c => Bits.value ((bits.drop (m * c)).take m)

/-- Addition of `m`-bit numbers with end-around carry. -/
def add (m a b : Nat) : Nat := (a + b) % 2 ^ m + (a + b) / 2 ^ m

def nFold (m : Nat) (bits : List Bool) : Nat := (blocks m (replicated m bits)).foldl (add m) 0

end Rfc3961

theorem gcd_eq (a b : Nat) : gcd a b = Nat.gcd a b := by
  fun_induction gcd a b with
  | case1 a => rw [Nat.gcd_zero_right]
  | case2 a b hb ih => rw [ih, Nat.gcd_comm, ← Nat.gcd_rec, Nat.gcd_comm]

theorem word_eq_some {n : Nat} (h : n < 2 ^ 64) (checked : Bool) : word checked n = some n :=
  if_pos h

theorem div_eq_some {b : Nat} (h : 0 < b) (a : Nat) : div a b = some (a / b) := if_neg h.ne'

theorem lcm_eq {a b : Nat} (ha : 0 < a) (checked : Bool) :
    lcm checked a b = word checked (Nat.lcm a b) := by
  have hlcm : a / Nat.gcd a b * b = Nat.lcm a b := Nat.div_mul_right_comm (Nat.gcd_dvd_left a b) b
  rw [lcm, gcd_eq, div_eq_some (Nat.gcd_pos_of_pos_left b ha), Option.bind_eq_bind,
    Option.bind_some, hlcm]

section Bits

open Bytes

theorem bitAt_eq_some {buf : Bytes} {j : Nat} (h : j < 8 * buf.length) :
    bitAt buf j = some (if bit buf j then 1 else 0) := by
  have hall : ∀ (n : Fin 256) (s : Fin 8), (UInt8.ofNat n.val >>> UInt8.ofNat (7 - s.val)) &&& 1 =
      if n.val.testBit (7 - s.val) then 1 else 0 := by decide +kernel
  have hlt : j / 8 < buf.length := by omega
  have hbyte := hall ⟨buf[j / 8].toNat, UInt8.toNat_lt _⟩ ⟨j % 8, Nat.mod_lt j (by decide)⟩
  rw [UInt8.ofNat_toNat] at hbyte
  rw [bitAt, List.getElem?_eq_getElem hlt, Option.map_some, bit, List.getD_eq_getElem _ _ hlt, hbyte]

theorem testBit_or_shiftLeft (b : UInt8) (x : Bool) (s t : Fin 8) :
    (b ||| (if x then 1 else 0) <<< UInt8.ofNat (7 - s.val)).toNat.testBit (7 - t.val) =
      (b.toNat.testBit (7 - t.val) || (decide (t = s) && x)) := by
  have hall : ∀ (x : Bool) (s t : Fin 8),
      ((if x then 1 else 0 : UInt8) <<< UInt8.ofNat (7 - s.val)).toNat.testBit (7 - t.val) =
        (decide (t = s) && x) := by decide
  rw [UInt8.toNat_or, Nat.testBit_or, hall]

theorem bit_modify {out : Bytes} {i j : Nat} (x : Bool) (hi : i < 8 * out.length) :
    bit (out.modify (i / 8) fun b => b ||| (if x then 1 else 0) <<< UInt8.ofNat (7 - i % 8)) j =
      (bit out j || (decide (j = i) && x)) := by
  have hlt : i / 8 < out.length := by omega
  cases Nat.decEq (i / 8) (j / 8) with
  | isFalse hne =>
    have hji : j ≠ i := fun heq => hne (by rw [heq])
    rw [bit, bit, List.getD_eq_getElem?_getD, List.getElem?_modify_ne _ _ hne,
      ← List.getD_eq_getElem?_getD]
    simp [hji]
  | isTrue heq =>
    have hsame : (j % 8 = i % 8) ↔ j = i := by omega
    have hbyte := testBit_or_shiftLeft out[i / 8] x ⟨i % 8, Nat.mod_lt i (by decide)⟩
      ⟨j % 8, Nat.mod_lt j (by decide)⟩
    simp only [Fin.mk.injEq, hsame] at hbyte
    rw [bit, bit, ← heq, List.getD_eq_getElem?_getD, List.getElem?_modify_eq,
      List.getElem?_eq_getElem hlt, Option.map_eq_map, Option.map_some, Option.getD_some, hbyte,
      List.getD_eq_getElem _ _ hlt]

theorem bit_replicate_zero (n j : Nat) : bit (List.replicate n 0) j = false := by
  have hzero : (List.replicate n (0 : UInt8)).getD (j / 8) 0 = 0 := by
    rw [List.getD_eq_getElem?_getD, List.getElem?_replicate]
    split <;> rfl
  rw [bit, hzero]
  exact Nat.zero_testBit _

theorem extractBits_loop {buf : Bytes} {startBit nbits : Nat}
    (h : startBit + nbits ≤ 8 * buf.length) (hword : 8 * buf.length ≤ 2 ^ 64) (checked : Bool) :
    ∃ out, extractBits checked buf startBit nbits = some out ∧ out.length = (nbits + 7) / 8 ∧
      ∀ j, bit out j = (decide (j < nbits) && bit buf (startBit + j)) := by
  refine foldlM_range_eq_some (P := fun n out => out.length = (nbits + 7) / 8 ∧
    ∀ j, bit out j = (decide (j < n) && bit buf (startBit + j))) ?_ ?_
  · refine ⟨List.length_replicate, fun j => ?_⟩
    rw [bit_replicate_zero]
    rfl
  · intro i out hi hout
    obtain ⟨hlen, hbits⟩ := hout
    refine ⟨_, by rw [word_eq_some (by omega), Option.bind_some, bitAt_eq_some (by omega)]; rfl,
      by rw [List.length_modify, hlen], fun j => ?_⟩
    rw [bit_modify _ (by omega), hbits]
    rcases Nat.lt_trichotomy j i with hlt | heq | hgt
    · simp [hlt, Nat.lt_succ_of_lt hlt, hlt.ne]
    · simp [heq]
    · simp [hgt.ne', hgt.not_gt, show ¬ j < i + 1 by omega]

theorem extractBits_eq {buf : Bytes} {startBit n : Nat} (h : startBit + 8 * n ≤ 8 * buf.length)
    (hword : 8 * buf.length ≤ 2 ^ 64) (checked : Bool) :
    ∃ out, extractBits checked buf startBit (8 * n) = some out ∧ out.length = n ∧
      bits out = ((bits buf).drop startBit).take (8 * n) := by
  obtain ⟨out, hout, hlen, hbits⟩ := extractBits_loop h hword checked
  have hlen : out.length = n := by omega
  refine ⟨out, hout, hlen, ?_⟩
  rw [bits, hlen, bits, ← List.map_drop, ← List.map_take]
  apply List.ext_getElem
  · simp
    omega
  · intro j hj _
    have hj : j < 8 * n := by simpa using hj
    simp [hbits, hj]

theorem rotateRight_eq {buf : Bytes} (hbuf : buf ≠ []) (hword : 16 * buf.length ≤ 2 ^ 64)
    (checked : Bool) (k : Nat) :
    ∃ out, rotateRight checked buf k = some out ∧ out.length = buf.length ∧
      bits out = Lists.rotateRight k (bits buf) := by
  have hpos : 0 < buf.length := List.length_pos_of_ne_nil hbuf
  have hmod : k % (8 * buf.length) < 8 * buf.length := Nat.mod_lt k (by omega)
  have htotal : word checked (buf.length * 8) = some (8 * buf.length) := by
    rw [Nat.mul_comm, word_eq_some (by omega)]
  rw [Lists.rotateRight_eq_take_drop, length_bits, ← bits_append]
  simp only [rotateRight, htotal, Option.bind_eq_bind, Option.bind_some,
    if_neg (show 8 * buf.length ≠ 0 by omega)]
  split
  · next hzero =>
    refine ⟨buf, rfl, rfl, ?_⟩
    have hdrop : (bits buf ++ bits buf).drop (8 * buf.length) = bits buf := by
      rw [← length_bits buf, List.drop_left]
    rw [hzero, Nat.sub_zero, bits_append, hdrop, ← length_bits buf, List.take_length]
  · exact extractBits_eq (by rw [List.length_append]; omega) (by rw [List.length_append]; omega)
      checked

theorem copies_eq {input : Bytes} (hinput : input ≠ []) {n : Nat}
    (hword : 1 < n → 16 * input.length ≤ 2 ^ 64) (checked : Bool) :
    ∃ big current, copies checked input n = some (big, current) ∧
      bits big = (List.range (n - 1 + 1)).flatMap fun k => Lists.rotateRight (13 * k) (bits input) := by
  obtain ⟨s, hs, _, _, hbig⟩ := foldlM_range_eq_some (n := n - 1)
    (f := fun (s : Bytes × Bytes) _ =>
      (rotateRight checked s.2 13).map fun current => (s.1 ++ current, current))
    (P := fun n s => s.2.length = input.length ∧
      bits s.2 = Lists.rotateRight (13 * n) (bits input) ∧
      bits s.1 = (List.range (n + 1)).flatMap fun k => Lists.rotateRight (13 * k) (bits input))
    (s := (input, input)) ⟨rfl, (Lists.rotateRight_zero _).symm, by
      simp [Lists.rotateRight_zero]⟩ (by
    intro i s hi hinv
    obtain ⟨hlen, hcurrent, hbig⟩ := hinv
    have hne : s.2 ≠ [] := List.ne_nil_of_length_pos (hlen ▸ List.length_pos_of_ne_nil hinput)
    obtain ⟨out, hout, houtLen, houtBits⟩ :=
      rotateRight_eq hne (hlen ▸ hword (by omega)) checked 13
    have hnext : bits out = Lists.rotateRight (13 * (i + 1)) (bits input) := by
      rw [houtBits, hcurrent, Lists.rotateRight_rotateRight, Nat.mul_succ, Nat.add_comm]
    refine ⟨(s.1 ++ out, out), by rw [hout]; rfl, houtLen.trans hlen, hnext, ?_⟩
    rw [bits_append, hbig, hnext, List.range_succ (n := i + 1), List.flatMap_append,
      List.flatMap_singleton])
  exact ⟨s.1, s.2, hs, hbig⟩

end Bits

section Sum

open Bytes

theorem addLoop_spec (pairs : List (UInt8 × UInt8)) (carry : Nat) :
    (addLoop pairs carry).1.length = pairs.length ∧
      ofLe (addLoop pairs carry).1 + 256 ^ pairs.length * (addLoop pairs carry).2 =
        ofLe (pairs.map Prod.fst) + ofLe (pairs.map Prod.snd) + carry := by
  induction pairs generalizing carry with
  | nil => simp [addLoop]
  | cons p pairs ih =>
    obtain ⟨x, y⟩ := p
    obtain ⟨hlen, hsum⟩ := ih ((x.toNat + y.toNat + carry) / 256)
    refine ⟨congrArg (· + 1) hlen, ?_⟩
    have hsplit := Nat.mod_add_div (x.toNat + y.toNat + carry) 256
    simp only [addLoop, ofLe_cons, List.map_cons, List.length_cons, Nat.pow_succ',
      UInt8.toNat_ofNat', Nat.mul_assoc]
    omega

theorem carryLoop_spec (bs : Bytes) (carry : Nat) :
    (carryLoop bs carry).1.length = bs.length ∧
      ofLe (carryLoop bs carry).1 + 256 ^ bs.length * (carryLoop bs carry).2 = ofLe bs + carry := by
  induction bs generalizing carry with
  | nil => simp [carryLoop]
  | cons x bs ih =>
    cases carry with
    | zero => simp [carryLoop]
    | succ carry =>
      obtain ⟨hlen, hsum⟩ := ih ((x.toNat + (carry + 1)) / 256)
      have hsplit := Nat.mod_add_div (x.toNat + (carry + 1)) 256
      rw [carryLoop, if_pos (Nat.succ_pos carry)]
      refine ⟨congrArg (· + 1) hlen, ?_⟩
      simp only [ofLe_cons, List.length_cons, Nat.pow_succ', UInt8.toNat_ofNat', Nat.mul_assoc]
      omega

theorem carryLoop_snd {bs : Bytes} {carry : Nat} (h : ofLe bs + carry < 256 ^ bs.length) :
    (carryLoop bs carry).2 = 0 := by
  have hsum := (carryLoop_spec bs carry).2
  cases hcarry : (carryLoop bs carry).2 with
  | zero => rfl
  | succ c =>
    rw [hcarry, Nat.mul_succ] at hsum
    omega

theorem carryLoop_zero (bs : Bytes) : carryLoop bs 0 = (bs, 0) := by
  cases bs with
  | nil => rfl
  | cons x bs => rfl

theorem addLoop_room {a b : Bytes} (h : a.length = b.length) {s : Bytes × Nat}
    (hs : addLoop (a.zip b).reverse 0 = s) :
    s.1.length = a.length ∧ ofLe s.1 + s.2 = Rfc3961.add (8 * a.length) (ofBe a) (ofBe b) ∧
      ofLe s.1 + s.2 < 256 ^ a.length ∧ s.2 ≤ 1 := by
  obtain ⟨hlen, hsum⟩ := addLoop_spec (a.zip b).reverse 0
  have hpairs : (a.zip b).reverse.length = a.length := by simp [h]
  rw [hs, hpairs] at hlen
  rw [hs, hpairs, List.map_reverse, List.map_reverse, List.map_fst_zip h.le,
    List.map_snd_zip h.ge, Nat.add_zero] at hsum
  change ofLe s.1 + 256 ^ a.length * s.2 = ofBe a + ofBe b at hsum
  have hlow : ofLe s.1 < 256 ^ a.length := hlen ▸ ofLe_lt s.1
  have ha := ofBe_lt a
  have hb : ofBe b < 256 ^ a.length := h ▸ ofBe_lt b
  obtain ⟨hdiv, hmod⟩ := (Nat.div_mod_unique (Nat.zero_lt_of_lt hlow)).mpr ⟨hsum, hlow⟩
  refine ⟨hlen, ?_, ?_⟩
  · rw [Rfc3961.add, Nat.pow_mul, hdiv, hmod]
  · match hcarry : s.2 with
    | 0 => omega
    | 1 =>
      rw [hcarry] at hsum
      omega
    | c + 2 =>
      rw [hcarry, Nat.mul_succ, Nat.mul_succ] at hsum
      omega

theorem onesComplementAdd_eq (fuel : Nat) {a b : Bytes} (h : a.length = b.length) :
    ∃ out, onesComplementAdd (fuel + 1) a b = some out ∧ out.length = a.length ∧
      ofBe out = Rfc3961.add (8 * a.length) (ofBe a) (ofBe b) := by
  obtain ⟨s, hs⟩ : ∃ s, addLoop (a.zip b).reverse 0 = s := ⟨_, rfl⟩
  obtain ⟨hlen, hadd, hroom, hcarry⟩ := addLoop_room h hs
  -- A pass keeps the number and leaves no carry, so that there is no second.
  have hpass : ∀ s : Bytes × Nat, ofLe s.1 + s.2 < 256 ^ s.1.length →
      carryLoop s.1 s.2 = ((carryLoop s.1 s.2).1, 0) := fun s hs =>
    Prod.ext rfl (carryLoop_snd hs)
  have hloop : whileLoop (fun s => 0 < s.2) (fun s => carryLoop s.1 s.2) (fuel + 1) s =
      some (carryLoop s.1 s.2) := by
    refine whileLoop_eq_some (I := fun s => ofLe s.1 + s.2 < 256 ^ s.1.length) (m := Prod.snd)
      (r := fun s => carryLoop s.1 s.2) ?_ ?_ (hlen ▸ hroom) (by omega)
    · intro s _ hdone
      have hzero : s.2 = 0 := by simpa using hdone
      rw [hzero, carryLoop_zero, ← hzero]
    · intro s hs hturn
      have hpos : 0 < s.2 := by simpa using hturn
      refine ⟨?_, ?_, ?_⟩
      · rw [carryLoop_snd hs]
        exact ofLe_lt _
      · rw [carryLoop_snd hs]
        exact hpos
      · rw [hpass s hs, carryLoop_zero]
  obtain ⟨hfinalLen, hfinal⟩ := carryLoop_spec s.1 s.2
  rw [carryLoop_snd (hlen ▸ hroom), Nat.mul_zero, Nat.add_zero] at hfinal
  refine ⟨(carryLoop s.1 s.2).1.reverse, ?_, ?_, ?_⟩
  · rw [onesComplementAdd, if_neg (by omega), hs, hloop]
    rfl
  · rw [List.length_reverse, hfinalLen, hlen]
  · rw [ofBe, List.reverse_reverse, hfinal, hadd]

theorem Rfc3961.add_modEq (m a b : Nat) : Rfc3961.add m a b ≡ a + b [MOD 2 ^ m - 1] := by
  have hone : 2 ^ m ≡ 1 [MOD 2 ^ m - 1] :=
    ((Nat.modEq_iff_dvd' Nat.one_le_two_pow).mpr (Nat.dvd_refl _)).symm
  have hcarry := (hone.mul_right ((a + b) / 2 ^ m)).symm
  rw [Nat.one_mul] at hcarry
  have hsum := hcarry.add_left ((a + b) % 2 ^ m)
  rwa [Nat.mod_add_div] at hsum

theorem Rfc3961.foldl_add_modEq (m : Nat) (xs : List Nat) (a : Nat) :
    xs.foldl (Rfc3961.add m) a ≡ a + xs.sum [MOD 2 ^ m - 1] := by
  induction xs generalizing a with
  | nil => exact Nat.ModEq.refl _
  | cons x xs ih =>
    rw [List.foldl_cons, List.sum_cons, ← Nat.add_assoc]
    exact (ih _).trans ((Rfc3961.add_modEq m a x).add_right _)

end Sum

theorem Rfc3961.length_replicated (m : Nat) (bits : List Bool) :
    (Rfc3961.replicated m bits).length = Nat.lcm bits.length m := by
  have hcopies : ∀ k, (Lists.rotateRight (13 * k) bits).length = bits.length := fun k =>
    Lists.length_rotateRight _ _
  rw [Rfc3961.replicated, List.length_flatMap]
  simp only [hcopies, List.map_const', List.length_range, List.sum_replicate, smul_eq_mul]
  exact Nat.div_mul_cancel (Nat.dvd_lcm_left _ _)

theorem chunkAt_eq {big : Bytes} {outBytes c : Nat} (h : (c + 1) * outBytes ≤ big.length)
    (hword : big.length < 2 ^ 64) (checked : Bool) :
    ∃ chunk, chunkAt checked big outBytes c = some chunk ∧ chunk.length = outBytes ∧
      Bytes.ofBe chunk = Bits.value
        (((Bytes.bits big).drop (8 * outBytes * c)).take (8 * outBytes)) := by
  have hstop : (c + 1) * outBytes = c * outBytes + outBytes := Nat.succ_mul _ _
  have hend : c * outBytes + outBytes ≤ big.length := hstop ▸ h
  refine ⟨Bytes.slice (c * outBytes) outBytes big, ?_, Bytes.length_slice hend, ?_⟩
  · rw [chunkAt, hstop, word_eq_some (show c * outBytes < 2 ^ 64 by omega),
      word_eq_some (show c * outBytes + outBytes < 2 ^ 64 by omega), Option.bind_eq_bind,
      Option.bind_some, Option.bind_some, if_pos ⟨Nat.le_add_right _ _, hend⟩,
      Nat.add_sub_cancel_left]
  · rw [← Bits.value_bits, Bytes.slice, Bytes.bits_take (by rw [List.length_drop]; omega),
      Bytes.bits_drop (by omega), Nat.mul_assoc, Nat.mul_comm outBytes]

theorem foldlM_chunks (checked : Bool) (fuel : Nat) {big : Bytes} {outBytes n : Nat}
    (h : n * outBytes ≤ big.length) (hword : big.length < 2 ^ 64) :
    ∃ out, (List.range n).foldlM (fun acc c => do
        let chunk ← chunkAt checked big outBytes c
        onesComplementAdd (fuel + 1) acc chunk) (List.replicate outBytes 0) = some out ∧
      out.length = outBytes ∧
      Bytes.ofBe out = ((List.range n).map fun c => Bits.value
        (((Bytes.bits big).drop (8 * outBytes * c)).take (8 * outBytes))).foldl
          (Rfc3961.add (8 * outBytes)) 0 := by
  refine foldlM_range_eq_some (P := fun n acc => acc.length = outBytes ∧
    Bytes.ofBe acc = ((List.range n).map fun c => Bits.value
      (((Bytes.bits big).drop (8 * outBytes * c)).take (8 * outBytes))).foldl
        (Rfc3961.add (8 * outBytes)) 0) ?_ ?_
  · exact ⟨List.length_replicate, Bytes.ofBe_replicate_zero outBytes⟩
  · intro c acc hc hacc
    obtain ⟨hlen, hvalue⟩ := hacc
    obtain ⟨chunk, hchunk, hchunkLen, hblock⟩ :=
      chunkAt_eq ((Nat.mul_le_mul_right outBytes hc).trans h) hword checked
    obtain ⟨out, hout, houtLen, hsum⟩ := onesComplementAdd_eq fuel (hlen.trans hchunkLen.symm)
    refine ⟨out, by rw [hchunk]; exact hout, houtLen.trans hlen, ?_⟩
    rw [hsum, hlen, hvalue, hblock, List.range_succ, List.map_append, List.foldl_append]
    rfl

theorem exists_nFold (checked : Bool) (fuel : Nat) {input : Bytes} (hinput : input ≠ [])
    {outBytes : Nat} (hout : 0 < outBytes)
    (hword : Nat.lcm (8 * input.length) (8 * outBytes) < 2 ^ 64) :
    ∃ out, nFold checked (fuel + 1) input outBytes = some out ∧ out.length = outBytes ∧
      Bytes.ofBe out = Rfc3961.nFold (8 * outBytes) (Bytes.bits input) := by
  have hin : 0 < 8 * input.length := by
    have := List.length_pos_of_ne_nil hinput
    omega
  have hlcm : 0 < Nat.lcm (8 * input.length) (8 * outBytes) := Nat.lcm_pos hin (by omega)
  have hinLe := Nat.le_of_dvd hlcm (Nat.dvd_lcm_left (8 * input.length) (8 * outBytes))
  have houtLe := Nat.le_of_dvd hlcm (Nat.dvd_lcm_right (8 * input.length) (8 * outBytes))
  have hreps : 0 < Nat.lcm (8 * input.length) (8 * outBytes) / (8 * input.length) :=
    Nat.div_pos hinLe hin
  -- a copy is rotated only where there is room for two
  have hroom : 1 < Nat.lcm (8 * input.length) (8 * outBytes) / (8 * input.length) →
      16 * input.length ≤ 2 ^ 64 := by
    intro htwo
    have := (Nat.le_div_iff_mul_le hin).mp (Nat.succ_le_of_lt htwo)
    omega
  obtain ⟨big, current, hcopies, hbits⟩ := copies_eq hinput hroom checked
  have hbits : Bytes.bits big = Rfc3961.replicated (8 * outBytes) (Bytes.bits input) := by
    rw [hbits, Nat.sub_add_cancel hreps, Rfc3961.replicated, Bytes.length_bits]
  have hlength : 8 * big.length = Nat.lcm (8 * input.length) (8 * outBytes) := by
    rw [← Bytes.length_bits big, hbits, Rfc3961.length_replicated, Bytes.length_bits]
  have hchunks : Nat.lcm (8 * input.length) (8 * outBytes) / (8 * outBytes) * outBytes ≤
      big.length := by
    have hdiv := Nat.div_mul_le_self (8 * big.length) (8 * outBytes)
    rw [← hlength]
    rw [Nat.mul_left_comm] at hdiv
    omega
  obtain ⟨out, hfold, hlen, hvalue⟩ := foldlM_chunks checked fuel hchunks (by omega)
  refine ⟨out, ?_, hlen, ?_⟩
  · simp only [nFold, List.isEmpty_iff, if_neg hinput, Nat.mul_comm input.length,
      Nat.mul_comm outBytes, word_eq_some (hinLe.trans_lt hword),
      word_eq_some (houtLe.trans_lt hword), lcm_eq hin, word_eq_some hword, div_eq_some hin,
      div_eq_some (show 0 < 8 * outBytes by omega), hcopies, Option.bind_eq_bind, Option.bind_some]
    exact hfold
  · rw [hvalue, Rfc3961.nFold, Rfc3961.blocks, ← hbits, Bytes.length_bits, hlength]

/-- The operation ends, and with the value of RFC 3961, whenever the common
multiple of the lengths fits a machine word. -/
theorem nFold_eq_rfc3961 (checked : Bool) (fuel : Nat) {input : Bytes} (hinput : input ≠ [])
    {outBytes : Nat} (hout : 0 < outBytes)
    (hword : Nat.lcm (8 * input.length) (8 * outBytes) < 2 ^ 64) :
    ∃ out, nFold checked (fuel + 1) input outBytes = some out ∧ out.length = outBytes ∧
      Bytes.ofBe out = Rfc3961.nFold (8 * outBytes) (Bytes.bits input) ∧
      Bytes.ofBe out ≡
        (Rfc3961.blocks (8 * outBytes) (Rfc3961.replicated (8 * outBytes) (Bytes.bits input))).sum
        [MOD 2 ^ (8 * outBytes) - 1] ∧
      (Rfc3961.replicated (8 * outBytes) (Bytes.bits input)).length =
        Nat.lcm (8 * input.length) (8 * outBytes) := by
  obtain ⟨out, hsome, hlen, hspec⟩ := exists_nFold checked fuel hinput hout hword
  refine ⟨out, hsome, hlen, hspec, ?_, ?_⟩
  · rw [hspec]
    have hmod := Rfc3961.foldl_add_modEq (8 * outBytes)
      (Rfc3961.blocks (8 * outBytes) (Rfc3961.replicated (8 * outBytes) (Bytes.bits input))) 0
    rwa [Nat.zero_add] at hmod
  · rw [Rfc3961.length_replicated, Bytes.length_bits]

theorem nFold_kerberos :
    ([0x6b, 0x65, 0x72, 0x62, 0x65, 0x72, 0x6f, 0x73] : Bytes) ≠ [] ∧ 0 < 16 ∧
      Nat.lcm (8 * 8) (8 * 16) < 2 ^ 64 ∧
      ∃ out, nFold false 1 [0x6b, 0x65, 0x72, 0x62, 0x65, 0x72, 0x6f, 0x73] 16 = some out ∧
        out.length = 16 ∧ Bytes.ofBe out = Rfc3961.nFold 128
          (Bytes.bits [0x6b, 0x65, 0x72, 0x62, 0x65, 0x72, 0x6f, 0x73]) := by
  have hinput : ([0x6b, 0x65, 0x72, 0x62, 0x65, 0x72, 0x6f, 0x73] : Bytes) ≠ [] := List.cons_ne_nil _ _
  have hout : 0 < 16 := by decide
  have hword : Nat.lcm (8 * 8) (8 * 16) < 2 ^ 64 := by decide
  obtain ⟨out, hsome, hlen, hvalue, _⟩ := nFold_eq_rfc3961 false 0 hinput hout hword
  exact ⟨hinput, hout, hword, out, hsome, hlen, hvalue⟩

example : nFold true 1 [0x6b, 0x65, 0x72, 0x62, 0x65, 0x72, 0x6f, 0x73] 16 =
    some [0x6b, 0x65, 0x72, 0x62, 0x65, 0x72, 0x6f, 0x73,
      0x7b, 0x9b, 0x5b, 0x2b, 0x93, 0x13, 0x2b, 0x93] := by decide +kernel

theorem Rfc3961.foldl_add_ne_zero (m : Nat) {xs : List Nat} {a : Nat} (h : a ≠ 0) :
    xs.foldl (Rfc3961.add m) a ≠ 0 := by
  induction xs generalizing a with
  | nil => exact h
  | cons x xs ih =>
    refine ih fun hzero => ?_
    have hsplit := Nat.mod_add_div (a + x) (2 ^ m)
    rw [Rfc3961.add, Nat.add_eq_zero_iff] at hzero
    rw [hzero.1, hzero.2] at hsplit
    omega

theorem Rfc3961.nFold_ne_zero {m : Nat} (hm : 0 < m) (bits : List Bool) :
    Rfc3961.nFold m (true :: bits) ≠ 0 := by
  have hlcm : 0 < Nat.lcm (true :: bits).length m := Nat.lcm_pos (Nat.succ_pos _) hm
  obtain ⟨n, hn⟩ := Nat.exists_eq_succ_of_ne_zero
    (Nat.div_pos (Nat.le_of_dvd hlcm (Nat.dvd_lcm_left _ m)) (Nat.succ_pos _)).ne'
  obtain ⟨k, hk⟩ := Nat.exists_eq_succ_of_ne_zero
    (Nat.div_pos (Nat.le_of_dvd hlcm (Nat.dvd_lcm_right (true :: bits).length m)) hm).ne'
  obtain ⟨rest, hrest⟩ : ∃ rest, Rfc3961.replicated m (true :: bits) = true :: rest := by
    refine ⟨bits ++ (List.map Nat.succ (List.range n)).flatMap fun k =>
      Lists.rotateRight (13 * k) (true :: bits), ?_⟩
    rw [Rfc3961.replicated, hn, List.range_succ_eq_map, List.flatMap_cons, Nat.mul_zero,
      Lists.rotateRight_zero, List.cons_append]
  obtain ⟨m, rfl⟩ := Nat.exists_eq_succ_of_ne_zero hm.ne'
  rw [Rfc3961.nFold, Rfc3961.blocks, Rfc3961.length_replicated, hk, List.range_succ_eq_map,
    List.map_cons, List.foldl_cons, Nat.mul_zero, List.drop_zero, hrest, List.take_succ_cons,
    ← List.singleton_append, Bits.value_append]
  refine Rfc3961.foldl_add_ne_zero _ fun hzero => ?_
  have hpos : 0 < 2 ^ (rest.take m).length := Nat.two_pow_pos _
  have hsum := Nat.mod_add_div
    (0 + (Bits.value [true] * 2 ^ (rest.take m).length + Bits.value (rest.take m))) (2 ^ (m + 1))
  rw [Rfc3961.add, Nat.add_eq_zero_iff] at hzero
  rw [hzero.1, hzero.2, show Bits.value [true] = 1 from rfl] at hsum
  omega

theorem word_true {n : Nat} (h : ¬ n < 2 ^ 64) : word true n = none := by
  rw [word, if_neg h, if_pos rfl]

theorem word_false (n : Nat) : word false n = some (n % 2 ^ 64) := by
  unfold word
  split
  case isTrue h => rw [Nat.mod_eq_of_lt h]
  case isFalse => rw [if_neg Bool.false_ne_true]

theorem lcm_succ_mul_eight {n : Nat} (h : n = 2 ^ 32) :
    Nat.lcm (n * 8) ((n + 1) * 8) = 8 * 2 ^ 64 + n * 8 := by
  have hcoprime : Nat.Coprime n (n + 1) := Nat.coprime_self_add_right.mpr (Nat.coprime_one_right n)
  rw [Nat.lcm_mul_right, hcoprime.lcm_eq_mul, h]
  norm_num

theorem nFold_of_length (fuel : Nat) {input : Bytes} {n : Nat} (hn : n = 2 ^ 32)
    (h : input.length = n) :
    nFold true fuel input (n + 1) = none ∧
      nFold false fuel input (n + 1) = some (List.replicate (n + 1) 0) := by
  have hin : 0 < n * 8 := by omega
  have hinput : input ≠ [] := by
    rintro rfl
    exact absurd h (by rw [List.length_nil]; omega)
  have hwide : ¬ 8 * 2 ^ 64 + n * 8 < 2 ^ 64 := by omega
  have hleft : (8 * 2 ^ 64 + n * 8) % 2 ^ 64 = n * 8 := by omega
  have hchunks : n * 8 / ((n + 1) * 8) = 0 := Nat.div_eq_of_lt (by omega)
  constructor
  · simp only [nFold, List.isEmpty_iff, if_neg hinput, h, lcm_eq hin,
      word_eq_some (show n * 8 < 2 ^ 64 by omega),
      word_eq_some (show (n + 1) * 8 < 2 ^ 64 by omega), lcm_succ_mul_eight hn, word_true hwide,
      Option.bind_eq_bind, Option.bind_some, Option.bind_none]
  · simp only [nFold, List.isEmpty_iff, if_neg hinput, h, lcm_eq hin,
      word_eq_some (show n * 8 < 2 ^ 64 by omega),
      word_eq_some (show (n + 1) * 8 < 2 ^ 64 by omega), lcm_succ_mul_eight hn,
      word_false (8 * 2 ^ 64 + n * 8), hleft, div_eq_some hin, Nat.div_self hin, copies,
      Nat.sub_self, List.range_zero, List.foldlM_nil, div_eq_some (show 0 < (n + 1) * 8 by omega), hchunks,
      Option.bind_eq_bind, Option.bind_some, Option.pure_def]

/-- The common multiple of the two lengths is past the machine word: a build
with overflow checks panics, and any other returns zeros. -/
theorem nFold_wraps :
    ∃ (input : Bytes) (outBytes : Nat), input ≠ [] ∧ 0 < outBytes ∧
      nFold true 1 input outBytes = none ∧
      ∃ out, nFold false 1 input outBytes = some out ∧
        Bytes.ofBe out ≠ Rfc3961.nFold (8 * outBytes) (Bytes.bits input) := by
  obtain ⟨n, hn⟩ : ∃ n, n = 2 ^ 32 := ⟨_, rfl⟩
  have hlength : (255 :: List.replicate (n - 1) 0 : Bytes).length = n := by
    rw [List.length_cons, List.length_replicate]
    omega
  obtain ⟨hchecked, hwraps⟩ := nFold_of_length 1 hn hlength
  refine ⟨_, _, List.cons_ne_nil _ _, Nat.succ_pos _, hchecked, _, hwraps, ?_⟩
  have hhead : Bytes.bits (255 :: List.replicate (n - 1) 0) = true :: (List.replicate 7 true ++
      Bytes.bits (List.replicate (n - 1) 0)) := by
    rw [← List.singleton_append, Bytes.bits_append]
    rfl
  rw [Bytes.ofBe_replicate_zero, hhead]
  exact (Rfc3961.nFold_ne_zero (by omega) _).symm

end IronDirectory.Crypto.NFold
