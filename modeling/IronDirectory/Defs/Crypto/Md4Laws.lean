import IronDirectory.Defs.Base.Octets
import IronDirectory.Defs.Crypto.Md4

namespace IronDirectory.Crypto.Md4

open Base

namespace Rfc1320

def bit (x : UInt32) (i : Nat) : Bool := x.toBitVec.getLsbD i

def ofBits (p : Nat → Bool) : UInt32 := ⟨BitVec.ofFnLE fun i : Fin 32 => p i⟩

/-- Where `x` has a bit that of `y`, and elsewhere that of `z`. -/
def conditional (x y z : UInt32) : UInt32 := ofBits fun i => if bit x i then bit y i else bit z i

def majority (x y z : UInt32) : UInt32 :=
  ofBits fun i => 2 ≤ (bit x i).toNat + (bit y i).toNat + (bit z i).toNat

def parity (x y z : UInt32) : UInt32 :=
  ofBits fun i => ((bit x i).toNat + (bit y i).toNat + (bit z i).toNat) % 2 = 1

def rotate (s : Nat) (x : UInt32) : UInt32 := ofBits fun i => bit x ((i + 32 - s) % 32)

def word (bs : Bytes) : UInt32 :=
  let byte := fun i => (bs.getD i 0).toNat
  UInt32.ofNat (byte 0 + 0x100 * byte 1 + 0x10000 * byte 2 + 0x1000000 * byte 3)

def octets (w : UInt32) : Bytes := (List.range 4).map fun i => UInt8.ofNat (w.toNat / 256 ^ i)

def initial : Registers where
  a := word [0x01, 0x23, 0x45, 0x67]
  b := word [0x89, 0xab, 0xcd, 0xef]
  c := word [0xfe, 0xdc, 0xba, 0x98]
  d := word [0x76, 0x54, 0x32, 0x10]

structure Round where
  auxiliary : UInt32 → UInt32 → UInt32 → UInt32
  constant : UInt32

def Round.sum (round : Round) (r : Registers) (x : UInt32) : UInt32 :=
  r.a + round.auxiliary r.b r.c r.d + x + round.constant

def first : Round := ⟨conditional, 0⟩

def second : Round := ⟨majority, 0x5A827999⟩

def third : Round := ⟨parity, 0x6ED9EBA1⟩

end Rfc1320

inductive Role
  | abcd
  | dabc
  | cdab
  | bcda
  deriving DecidableEq

namespace Role

def view : Role → Registers → Registers
  | abcd, r => r
  | dabc, r => ⟨r.d, r.a, r.b, r.c⟩
  | cdab, r => ⟨r.c, r.d, r.a, r.b⟩
  | bcda, r => ⟨r.b, r.c, r.d, r.a⟩

def set : Role → Registers → UInt32 → Registers
  | abcd, r, v => { r with a := v }
  | dabc, r, v => { r with d := v }
  | cdab, r, v => { r with c := v }
  | bcda, r, v => { r with b := v }

def next : Role → Role
  | abcd => dabc
  | dabc => cdab
  | cdab => bcda
  | bcda => abcd

end Role

structure Operation where
  role : Role
  k : Nat
  s : Nat
  deriving DecidableEq

def Operation.perform (round : Rfc1320.Round) (x : List UInt32) (r : Registers) (op : Operation) :
    Registers :=
  op.role.set r (Rfc1320.rotate op.s (round.sum (op.role.view r) (x.getD op.k 0)))

def table1 : List Operation :=
  [⟨.abcd, 0, 3⟩, ⟨.dabc, 1, 7⟩, ⟨.cdab, 2, 11⟩, ⟨.bcda, 3, 19⟩,
    ⟨.abcd, 4, 3⟩, ⟨.dabc, 5, 7⟩, ⟨.cdab, 6, 11⟩, ⟨.bcda, 7, 19⟩,
    ⟨.abcd, 8, 3⟩, ⟨.dabc, 9, 7⟩, ⟨.cdab, 10, 11⟩, ⟨.bcda, 11, 19⟩,
    ⟨.abcd, 12, 3⟩, ⟨.dabc, 13, 7⟩, ⟨.cdab, 14, 11⟩, ⟨.bcda, 15, 19⟩]

def table2 : List Operation :=
  [⟨.abcd, 0, 3⟩, ⟨.dabc, 4, 5⟩, ⟨.cdab, 8, 9⟩, ⟨.bcda, 12, 13⟩,
    ⟨.abcd, 1, 3⟩, ⟨.dabc, 5, 5⟩, ⟨.cdab, 9, 9⟩, ⟨.bcda, 13, 13⟩,
    ⟨.abcd, 2, 3⟩, ⟨.dabc, 6, 5⟩, ⟨.cdab, 10, 9⟩, ⟨.bcda, 14, 13⟩,
    ⟨.abcd, 3, 3⟩, ⟨.dabc, 7, 5⟩, ⟨.cdab, 11, 9⟩, ⟨.bcda, 15, 13⟩]

def table3 : List Operation :=
  [⟨.abcd, 0, 3⟩, ⟨.dabc, 8, 9⟩, ⟨.cdab, 4, 11⟩, ⟨.bcda, 12, 15⟩,
    ⟨.abcd, 2, 3⟩, ⟨.dabc, 10, 9⟩, ⟨.cdab, 6, 11⟩, ⟨.bcda, 14, 15⟩,
    ⟨.abcd, 1, 3⟩, ⟨.dabc, 9, 9⟩, ⟨.cdab, 5, 11⟩, ⟨.bcda, 13, 15⟩,
    ⟨.abcd, 3, 3⟩, ⟨.dabc, 11, 9⟩, ⟨.cdab, 7, 11⟩, ⟨.bcda, 15, 15⟩]

namespace Rfc1320

/-- One bit set, then as few clear ones as make the length 448 modulo 512, then
the length in bits, cut to 64 bits. -/
def pad (message : Bytes) : Bytes :=
  message ++ 0x80 :: List.replicate ((119 - message.length % 64) % 64) 0 ++
    Bytes.le 8 (message.length * 8)

def words (padded : Bytes) : List UInt32 :=
  (List.range (padded.length / 4)).map fun j => word (Bytes.slice (4 * j) 4 padded)

def block (m : List UInt32) (i : Nat) : List UInt32 :=
  (List.range 16).map fun j => m.getD (16 * i + j) 0

def process (x : List UInt32) (r : Registers) : Registers :=
  let r' := table3.foldl (Operation.perform third x)
    (table2.foldl (Operation.perform second x) (table1.foldl (Operation.perform first x) r))
  ⟨r'.a + r.a, r'.b + r.b, r'.c + r.c, r'.d + r.d⟩

def digest (message : Bytes) : Bytes :=
  let m := words (pad message)
  let r := (List.range (m.length / 16)).foldl (fun r i => process (block m i) r) initial
  octets r.a ++ octets r.b ++ octets r.c ++ octets r.d

end Rfc1320

section Words

open Rfc1320 (bit ofBits)

theorem bit_ofBits (p : Nat → Bool) {i : Nat} (hi : i < 32) : bit (ofBits p) i = p i := by
  simp [bit, ofBits, hi]

theorem eq_ofBits {x : UInt32} {p : Nat → Bool} (hx : ∀ i < 32, bit x i = p i) : x = ofBits p := by
  apply UInt32.eq_of_toBitVec_eq
  apply BitVec.eq_of_getLsbD_eq
  intro i hi
  exact (hx i hi).trans (bit_ofBits p hi).symm

theorem f_eq (x y z : UInt32) : f x y z = Rfc1320.conditional x y z := by
  refine eq_ofBits fun i hi => ?_
  have hall : ∀ a b c : Bool, (a && b || !a && c) = if a then b else c := by decide
  simp only [bit, f, UInt32.toBitVec_or, UInt32.toBitVec_and, UInt32.toBitVec_not,
    BitVec.getLsbD_or, BitVec.getLsbD_and, BitVec.getLsbD_not, hi, decide_true, Bool.true_and]
  exact hall _ _ _

theorem g_eq (x y z : UInt32) : g x y z = Rfc1320.majority x y z := by
  refine eq_ofBits fun i _ => ?_
  have hall : ∀ a b c : Bool, (a && b || a && c || b && c) =
      decide (2 ≤ a.toNat + b.toNat + c.toNat) := by decide
  simp only [bit, g, UInt32.toBitVec_or, UInt32.toBitVec_and, BitVec.getLsbD_or, BitVec.getLsbD_and]
  exact hall _ _ _

theorem h_eq (x y z : UInt32) : h x y z = Rfc1320.parity x y z := by
  refine eq_ofBits fun i _ => ?_
  have hall : ∀ a b c : Bool, (a ^^ b ^^ c) =
      decide ((a.toNat + b.toNat + c.toNat) % 2 = 1) := by decide
  simp only [bit, h, UInt32.toBitVec_xor, BitVec.getLsbD_xor]
  exact hall _ _ _

theorem rotateLeft_eq (x : UInt32) {s : Nat} (hs : s < 32) :
    rotateLeft x s = Rfc1320.rotate s x := by
  refine eq_ofBits fun i hi => ?_
  rw [bit, rotateLeft, BitVec.getLsbD_rotateLeft, Nat.mod_eq_of_lt hs]
  by_cases hlt : i < s
  · rw [decide_eq_true hlt, cond_true, bit, show (i + 32 - s) % 32 = 32 - s + i by omega]
  · rw [decide_eq_false hlt, cond_false, decide_eq_true hi, Bool.true_and, bit,
      show (i + 32 - s) % 32 = i - s by omega]

theorem octets_eq (w : UInt32) : Bytes.le 4 w.toNat = Rfc1320.octets w := by
  have hrange : List.range 4 = [0, 1, 2, 3] := rfl
  simp only [Rfc1320.octets, hrange, List.map_cons, List.map_nil, Bytes.le, Nat.div_div_eq_div_mul]
  norm_num

theorem ofLe_four (a b c d : UInt8) : Bytes.ofLe [a, b, c, d] =
    a.toNat + 0x100 * b.toNat + 0x10000 * c.toNat + 0x1000000 * d.toNat := by
  simp only [Bytes.ofLe_cons, Bytes.ofLe_nil]
  omega

theorem fromLeBytes_eq {bs : Bytes} (hlen : bs.length = 4) : fromLeBytes bs = Rfc1320.word bs := by
  obtain ⟨a, b, c, d, rfl⟩ := List.length_eq_four.mp hlen
  rw [fromLeBytes, ofLe_four]
  rfl

end Words

section Rounds

def Follows (mix : Mix) (round : Rfc1320.Round) : Prop := ∀ r x, mix r x = round.sum r x

theorem mix1_follows : Follows mix1 Rfc1320.first := by
  intro r x
  rw [mix1, f_eq, Rfc1320.Round.sum, Rfc1320.first, UInt32.add_zero]

theorem mix2_follows : Follows mix2 Rfc1320.second := by
  intro r x
  rw [mix2, g_eq, Rfc1320.Round.sum, Rfc1320.second]

theorem mix3_follows : Follows mix3 Rfc1320.third := by
  intro r x
  rw [mix3, h_eq, Rfc1320.Round.sum, Rfc1320.third]

variable {mix : Mix} {round : Rfc1320.Round}

theorem turn_view (hmix : Follows mix round) (x : List UInt32) (r : Registers) {op : Operation}
    (hop : op.s < 32) :
    turn mix x (op.role.view r) op.k op.s = op.role.next.view (op.perform round x r) := by
  obtain ⟨role, k, s⟩ := op
  rw [turn, hmix, rotateLeft_eq _ hop]
  cases role <;> rfl

def Cycles : Role → Role → List Operation → Prop
  | start, stop, [] => start = stop
  | start, stop, op :: ops => op.role = start ∧ op.s < 32 ∧ Cycles start.next stop ops

instance decidableCycles : ∀ start stop ops, Decidable (Cycles start stop ops)
  | start, stop, [] => inferInstanceAs (Decidable (start = stop))
  | start, stop, op :: ops =>
    have := decidableCycles start.next stop ops
    inferInstanceAs (Decidable (op.role = start ∧ op.s < 32 ∧ Cycles start.next stop ops))

theorem foldl_turn_view (hmix : Follows mix round) (x : List UInt32) {ops : List Operation}
    {start stop : Role} (h : Cycles start stop ops) (r : Registers) :
    ops.foldl (fun r op => turn mix x r op.k op.s) (start.view r) =
      stop.view (ops.foldl (Operation.perform round x) r) := by
  induction ops generalizing start r with
  | nil =>
    have heq : start = stop := h
    rw [heq]
    rfl
  | cons op ops ih =>
    obtain ⟨rfl, hop, hrest⟩ := h
    rw [List.foldl_cons, List.foldl_cons, turn_view hmix x r hop, ih hrest]

theorem round_eq_table (hmix : Follows mix round) (x : List UInt32) {shifts order : List Nat}
    {table : List Operation} (hcycles : Cycles .abcd .abcd table)
    (htable : (List.range 16).map (fun i => (order.getD i 0, shifts.getD (i % 4) 0)) =
      table.map fun op => (op.k, op.s)) (r : Registers) :
    Md4.round mix shifts order x r = table.foldl (Operation.perform round x) r := by
  calc Md4.round mix shifts order x r
      = ((List.range 16).map fun i => (order.getD i 0, shifts.getD (i % 4) 0)).foldl
          (fun r ks => turn mix x r ks.1 ks.2) r := by rw [List.foldl_map]; rfl
    _ = table.foldl (fun r op => turn mix x r op.k op.s) r := by rw [htable, List.foldl_map]
    _ = table.foldl (Operation.perform round x) r := foldl_turn_view hmix x hcycles r

theorem round1_eq (x : List UInt32) (r : Registers) :
    round1 x r = table1.foldl (Operation.perform Rfc1320.first x) r :=
  round_eq_table mix1_follows x (by decide) (by decide) r

theorem round2_eq (x : List UInt32) (r : Registers) :
    round2 x r = table2.foldl (Operation.perform Rfc1320.second x) r :=
  round_eq_table mix2_follows x (by decide) (by decide) r

theorem round3_eq (x : List UInt32) (r : Registers) :
    round3 x r = table3.foldl (Operation.perform Rfc1320.third x) r :=
  round_eq_table mix3_follows x (by decide) (by decide) r

theorem processBlock_eq (r : Registers) (block : Bytes) :
    processBlock r block = Rfc1320.process ((Bytes.chunksExact 4 block).map fromLeBytes) r := by
  simp only [processBlock, Rfc1320.process, round1_eq, round2_eq, round3_eq]
  simp only [UInt32.add_comm]

end Rounds

section Padding

def missing (n : Nat) : Nat := (120 - n % 64) % 64

theorem pad_eq (fuel : Nat) (message : Bytes) :
    pad (64 + fuel) message = some (Rfc1320.pad message) := by
  have hloop : whileLoop (fun padded : Bytes => padded.length % 64 != 56)
      (fun padded => padded ++ [0]) (64 + fuel) (message ++ [0x80]) =
        some (message ++ [0x80] ++ List.replicate (missing (message ++ [0x80]).length) 0) := by
    apply whileLoop_eq_some (I := fun _ => True) (m := fun p : Bytes => missing p.length)
      (r := fun p : Bytes => p ++ List.replicate (missing p.length) 0)
    · intro padded _ hcond
      have hlen : padded.length % 64 = 56 := by simpa using hcond
      have hzero : missing padded.length = 0 := by
        unfold missing
        omega
      rw [hzero, List.replicate_zero, List.append_nil]
    · intro padded _ hcond
      have hlen : padded.length % 64 ≠ 56 := by simpa using hcond
      have hsucc : missing padded.length = missing (padded ++ [0]).length + 1 := by
        rw [List.length_append, List.length_singleton]
        unfold missing
        omega
      refine ⟨trivial, by omega, ?_⟩
      rw [hsucc, List.append_assoc, List.replicate_succ]
      rfl
    · trivial
    · unfold missing
      omega
  have hmissing : missing (message ++ [0x80]).length = (119 - message.length % 64) % 64 := by
    rw [List.length_append, List.length_singleton]
    unfold missing
    omega
  rw [pad, hloop, hmissing, Option.map_some, Rfc1320.pad]
  simp

theorem length_pad_mod (message : Bytes) : (Rfc1320.pad message).length % 64 = 0 := by
  simp only [Rfc1320.pad, List.length_append, List.length_cons, List.length_replicate,
    Bytes.length_le]
  omega

end Padding

section Blocks

variable {padded : Bytes}

theorem getD_words {n : Nat} (h : n < padded.length / 4) :
    (Rfc1320.words padded).getD n 0 = fromLeBytes (Bytes.slice (4 * n) 4 padded) := by
  rw [Rfc1320.words, List.getD_eq_getElem?_getD, List.getElem?_map, List.getElem?_range h,
    fromLeBytes_eq (Bytes.length_slice (by omega))]
  rfl

theorem words_of_block {i : Nat} (h : 64 * (i + 1) ≤ padded.length) :
    (Bytes.chunksExact 4 (Bytes.slice (64 * i) 64 padded)).map fromLeBytes =
      Rfc1320.block (Rfc1320.words padded) i := by
  have hlen : (Bytes.slice (64 * i) 64 padded).length = 64 := Bytes.length_slice (by omega)
  rw [Bytes.chunksExact, hlen, List.map_map, Rfc1320.block]
  refine List.map_congr_left fun j hj => ?_
  have hj' : j < 16 := List.mem_range.mp hj
  rw [Function.comp_apply, Bytes.slice_slice (by omega), getD_words (by omega)]
  congr 2
  omega

theorem foldl_congr_range {α : Type} {n : Nat} {f g : α → Nat → α}
    (h : ∀ i < n, ∀ a, f a i = g a i) (a : α) :
    (List.range n).foldl f a = (List.range n).foldl g a := by
  induction n with
  | zero => rfl
  | succ n ih =>
    rw [List.range_succ, List.foldl_append, List.foldl_append,
      ih fun i hi => h i (Nat.lt_succ_of_lt hi)]
    exact h n (Nat.lt_succ_self n) _

theorem foldl_processBlock (r : Registers) :
    (Bytes.chunksExact 64 padded).foldl processBlock r =
      (List.range ((Rfc1320.words padded).length / 16)).foldl
        (fun r i => Rfc1320.process (Rfc1320.block (Rfc1320.words padded) i) r) r := by
  have hcount : (Rfc1320.words padded).length / 16 = padded.length / 64 := by
    rw [Rfc1320.words, List.length_map, List.length_range]
    omega
  rw [hcount, Bytes.chunksExact, List.foldl_map]
  refine foldl_congr_range (fun i hi r => ?_) r
  rw [processBlock_eq, words_of_block (by omega)]

end Blocks

/-- Every message has its digest of RFC 1320: the padding loop ends, fills whole
blocks and ends in the length, and every block is processed by the tables. -/
theorem md4_eq_rfc1320 (fuel : Nat) (message : Bytes) :
    md4 (64 + fuel) message = some (Rfc1320.digest message) ∧
      ∃ padded, pad (64 + fuel) message = some padded ∧ padded.length % 64 = 0 ∧
        Bytes.le 8 (message.length * 8) <:+ padded ∧
        (Bytes.chunksExact 64 padded).flatten = padded := by
  refine ⟨?_, _, pad_eq fuel message, length_pad_mod message, List.suffix_append _ _,
    Bytes.flatten_chunksExact (length_pad_mod message)⟩
  have hinitial : initial = Rfc1320.initial := by decide +kernel
  rw [md4, pad_eq, Option.map_some, foldl_processBlock, hinitial]
  simp only [output, octets_eq]
  rfl

example : md4 64 [0x61, 0x62, 0x63] =
    some [0xa4, 0x48, 0x01, 0x7a, 0xaf, 0x21, 0xd8, 0x52, 0x5f, 0xc1, 0x0a, 0xe8, 0x7a, 0xa6, 0x72,
      0x9d] := by
  decide +kernel

end IronDirectory.Crypto.Md4
