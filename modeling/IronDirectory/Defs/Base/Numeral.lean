import IronDirectory.Defs.Base.Text

namespace IronDirectory.Base

namespace Str

def digit? (c : Char) : Option Nat :=
  if '0' ≤ c && c ≤ '9' then some (c.toNat - '0'.toNat) else none

def hexDigit? (c : Char) : Option Nat :=
  if '0' ≤ c && c ≤ '9' then some (c.toNat - '0'.toNat)
  else if 'a' ≤ c && c ≤ 'f' then some (c.toNat - 'a'.toNat + 10)
  else if 'A' ≤ c && c ≤ 'F' then some (c.toNat - 'A'.toNat + 10)
  else none

def digits? : Nat → Str → Option Nat
  | acc, [] => some acc
  | acc, c :: cs => (digit? c).bind fun d => digits? (10 * acc + d) cs

def nat? (s : Str) : Option Nat := if s.isEmpty then none else digits? 0 s

def unsigned? (bound : Nat) (s : Str) : Option Nat :=
  (nat? (match s with
    | '+' :: cs => cs
    | cs => cs)).filter (· < bound)

def signed? (width : Nat) (s : Str) : Option Int :=
  let value : Option Int :=
    match s with
    | '+' :: cs => (nat? cs).map Int.ofNat
    | '-' :: cs => (nat? cs).map fun n => -Int.ofNat n
    | cs => (nat? cs).map Int.ofNat
  value.filter fun v => -(2 ^ (width - 1)) ≤ v && v < 2 ^ (width - 1)

def ofNat (n : Nat) : Str := Nat.toDigits 10 n

def ofInt (i : Int) : Str :=
  if i < 0 then '-' :: ofNat i.natAbs else ofNat i.natAbs

def splitn (sep : Char) : Nat → Str → List Str
  | 0, _ => []
  | 1, s => [s]
  | n + 2, s =>
    match s.span (· != sep) with
    | (a, []) => [a]
    | (a, _ :: rest) => a :: splitn sep (n + 1) rest

def encodeUtf16 (s : Str) : List UInt16 :=
  s.flatMap fun c =>
    let n := c.toNat
    if n < 0x10000 then [UInt16.ofNat n]
    else [UInt16.ofNat (0xD800 + (n - 0x10000) / 0x400), UInt16.ofNat (0xDC00 + (n - 0x10000) % 0x400)]

def fromUtf16 : List UInt16 → Option Str
  | [] => some []
  | u :: us =>
    if u < 0xD800 || 0xDFFF < u then (fromUtf16 us).map (Char.ofNat u.toNat :: ·)
    else if u ≤ 0xDBFF then
      match us with
      | [] => none
      | v :: us =>
        if 0xDC00 ≤ v && v ≤ 0xDFFF then
          (fromUtf16 us).map
            (Char.ofNat (0x10000 + (u.toNat - 0xD800) * 0x400 + (v.toNat - 0xDC00)) :: ·)
        else none
    else none

theorem digits?_eq {s : Str} (h : ∀ c ∈ s, c.isDigit = true) (acc : Nat) :
    digits? acc s = some (Nat.ofDigitChars 10 s acc) := by
  induction s generalizing acc with
  | nil => rfl
  | cons c s ih =>
    rw [List.forall_mem_cons] at h
    have hc : digit? c = some (c.toNat - '0'.toNat) := by
      rw [digit?, if_pos]
      simpa [Char.le_def, Char.isDigit] using h.1
    rw [digits?, hc, Option.bind_some, ih h.2, Nat.ofDigitChars_cons]

theorem isDigit_of_mem_ofNat {n : Nat} {c : Char} (h : c ∈ ofNat n) : c.isDigit = true :=
  Nat.isDigit_of_mem_toDigits (by decide) (by decide) h

theorem nat?_ofNat (n : Nat) : nat? (ofNat n) = some n := by
  have hne : (ofNat n).isEmpty = false := by
    simp [ofNat, Nat.toDigits_ne_nil]
  rw [nat?, hne, if_neg (by decide), digits?_eq fun c => isDigit_of_mem_ofNat, ofNat,
    Nat.ofDigitChars_ten_toDigits]

theorem unsigned?_ofNat {bound n : Nat} (h : n < bound) : unsigned? bound (ofNat n) = some n := by
  have hplus : ∀ cs, ofNat n ≠ '+' :: cs := by
    intro cs hcs
    have hd : '+'.isDigit = true := isDigit_of_mem_ofNat (n := n) (by rw [hcs]; simp)
    exact absurd hd (by decide)
  rw [unsigned?, nat?_ofNat]
  · simp [h]
  · exact hplus

theorem ofNat_injective : Function.Injective ofNat := by
  intro n m h
  have hn := nat?_ofNat n
  rw [h, nat?_ofNat] at hn
  exact (Option.some.inj hn).symm

end Str

namespace Bytes

def le : Nat → Nat → Bytes
  | 0, _ => []
  | width + 1, n => UInt8.ofNat n :: le width (n / 256)

def be (width n : Nat) : Bytes := (le width n).reverse

def ofLe (bs : Bytes) : Nat := bs.foldr (fun b acc => b.toNat + 256 * acc) 0

def ofBe (bs : Bytes) : Nat := ofLe bs.reverse

def hexChar (n : Nat) : Char := if n < 10 then Char.ofNat (48 + n) else Char.ofNat (87 + n)

def toHex (bs : Bytes) : Str :=
  bs.flatMap fun b => [hexChar (b.toNat / 16), hexChar (b.toNat % 16)]

theorem ofLe_le (width n : Nat) : ofLe (le width n) = n % 256 ^ width := by
  induction width generalizing n with
  | zero => simp [le, ofLe, Nat.mod_one]
  | succ width ih =>
    change (UInt8.ofNat n).toNat + 256 * ofLe (le width (n / 256)) = _
    rw [ih, UInt8.toNat_ofNat', show 256 ^ (width + 1) = 256 * 256 ^ width from Nat.pow_succ',
      Nat.mod_mul]

@[simp] theorem length_le (width n : Nat) : (le width n).length = width := by
  induction width generalizing n with
  | zero => rfl
  | succ width ih => simp [le, ih]

theorem ofNat_ofLe_le (v : UInt32) : UInt32.ofNat (ofLe (le 4 v.toNat)) = v := by
  rw [ofLe_le, Nat.mod_eq_of_lt (show v.toNat < 256 ^ 4 from v.toNat_lt), UInt32.ofNat_toNat]

end Bytes

namespace Base64

def sextet? (c : Char) : Option Nat :=
  if 'A' ≤ c && c ≤ 'Z' then some (c.toNat - 'A'.toNat)
  else if 'a' ≤ c && c ≤ 'z' then some (c.toNat - 'a'.toNat + 26)
  else if '0' ≤ c && c ≤ '9' then some (c.toNat - '0'.toNat + 52)
  else if c = '+' then some 62
  else if c = '/' then some 63
  else none

-- Padding is required and the bits it leaves over must be zero.
def decode : Str → Option Bytes
  | [] => some []
  | [a, b, '=', '='] => do
    let x ← sextet? a
    let y ← sextet? b
    if y % 16 = 0 then some [UInt8.ofNat (x * 4 + y / 16)] else none
  | [a, b, c, '='] => do
    let x ← sextet? a
    let y ← sextet? b
    let z ← sextet? c
    if z % 4 = 0 then
      some [UInt8.ofNat (x * 4 + y / 16), UInt8.ofNat (y % 16 * 16 + z / 4)]
    else none
  | a :: b :: c :: d :: rest => do
    let x ← sextet? a
    let y ← sextet? b
    let z ← sextet? c
    let w ← sextet? d
    let tail ← decode rest
    some (UInt8.ofNat (x * 4 + y / 16) :: UInt8.ofNat (y % 16 * 16 + z / 4) ::
      UInt8.ofNat (z % 4 * 64 + w) :: tail)
  | _ => none

def char (n : Nat) : Char :=
  if n < 26 then Char.ofNat (65 + n)
  else if n < 52 then Char.ofNat (71 + n)
  else if n < 62 then Char.ofNat (n - 4)
  else if n = 62 then '+'
  else '/'

def encode : Bytes → Str
  | [] => []
  | [a] => [char (a.toNat / 4), char (a.toNat % 4 * 16), '=', '=']
  | [a, b] =>
    [char (a.toNat / 4), char (a.toNat % 4 * 16 + b.toNat / 16), char (b.toNat % 16 * 4), '=']
  | a :: b :: c :: rest =>
    char (a.toNat / 4) :: char (a.toNat % 4 * 16 + b.toNat / 16) ::
      char (b.toNat % 16 * 4 + c.toNat / 64) :: char (c.toNat % 64) :: encode rest

theorem sextet?_char : ∀ n < 64, sextet? (char n) = some n := by decide

theorem char_ne_pad : ∀ n < 64, char n ≠ '=' := by decide

theorem ofNat_eq {n : Nat} {a : UInt8} (h : n = a.toNat) : UInt8.ofNat n = a := by
  rw [h, UInt8.ofNat_toNat]

theorem decode_encode (bs : Bytes) : decode (encode bs) = some bs := by
  fun_induction encode bs with
  | case1 => rfl
  | case2 a =>
    have ha := a.toNat_lt
    have h₁ := sextet?_char (a.toNat / 4) (by omega)
    have h₂ := sextet?_char (a.toNat % 4 * 16) (by omega)
    simp only [decode, h₁, h₂, Option.bind_eq_bind, Option.bind_some]
    rw [if_pos (by omega), ofNat_eq (a := a) (by omega)]
  | case3 a b =>
    have ha := a.toNat_lt
    have hb := b.toNat_lt
    have h₁ := sextet?_char (a.toNat / 4) (by omega)
    have h₂ := sextet?_char (a.toNat % 4 * 16 + b.toNat / 16) (by omega)
    have h₃ := sextet?_char (b.toNat % 16 * 4) (by omega)
    have hne := char_ne_pad (b.toNat % 16 * 4) (by omega)
    rw [decode.eq_3 _ _ _ hne]
    simp only [h₁, h₂, h₃, Option.bind_eq_bind, Option.bind_some]
    rw [if_pos (by omega), ofNat_eq (a := a) (by omega), ofNat_eq (a := b) (by omega)]
  | case4 a b c rest ih =>
    have ha := a.toNat_lt
    have hb := b.toNat_lt
    have hc := c.toNat_lt
    have h₁ := sextet?_char (a.toNat / 4) (by omega)
    have h₂ := sextet?_char (a.toNat % 4 * 16 + b.toNat / 16) (by omega)
    have h₃ := sextet?_char (b.toNat % 16 * 4 + c.toNat / 64) (by omega)
    have h₄ := sextet?_char (c.toNat % 64) (by omega)
    have hne := char_ne_pad (c.toNat % 64) (by omega)
    rw [decode.eq_4 _ _ _ _ _ (fun _ h _ => hne h) (fun h _ => hne h)]
    simp only [h₁, h₂, h₃, h₄, ih, Option.bind_eq_bind, Option.bind_some]
    rw [ofNat_eq (a := a) (by omega), ofNat_eq (a := b) (by omega), ofNat_eq (a := c) (by omega)]

theorem length_lt_of_decode {s : Str} {bs : Bytes} (h : decode s = some bs) :
    s = [] ∨ bs.length < s.length := by
  fun_induction decode s generalizing bs with
  | case1 => exact .inl rfl
  | case2 a b =>
    simp only [Option.bind_eq_bind, Option.bind_eq_some_iff] at h
    obtain ⟨x, _, y, _, h⟩ := h
    split at h
    · cases h
      exact .inr (by simp)
    · cases h
  | case3 a b c =>
    simp only [Option.bind_eq_bind, Option.bind_eq_some_iff] at h
    obtain ⟨x, _, y, _, z, _, h⟩ := h
    split at h
    · cases h
      exact .inr (by simp)
    · cases h
  | case4 a b c d rest _ _ ih =>
    simp only [Option.bind_eq_bind, Option.bind_eq_some_iff] at h
    obtain ⟨x, _, y, _, z, _, w, _, tail, htail, h⟩ := h
    cases h
    obtain rfl | hlt := ih htail
    · cases htail
      exact .inr (by simp)
    · exact .inr (by simp only [List.length_cons]; omega)
  | case5 => cases h

end Base64

end IronDirectory.Base
