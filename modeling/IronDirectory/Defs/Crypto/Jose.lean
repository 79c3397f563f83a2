import IronDirectory.Defs.Base.Der
import IronDirectory.Defs.Crypto.Cipher

namespace IronDirectory.Crypto.Jose

open Base Outcome

def next (n : Nat) (der : Bytes) : Except CryptoError (Bytes × Bytes) :=
  if n ≤ der.length then .ok (der.take n, der.drop n) else .error .ossl

def stripSign (componentLen : Nat) (bytes : Bytes) : Bytes :=
  if componentLen < bytes.length ∧ bytes.head? = some 0 then bytes.drop 1 else bytes

def readInteger (componentLen : Nat) (der : Bytes) : Except CryptoError (Bytes × Bytes) := do
  let (tag, der) ← next 1 der
  ensure (tag = [0x02]) .ossl
  let (len, der) ← next 1 der
  let (bytes, der) ← next (len.headD 0).toNat der
  let bytes := stripSign componentLen bytes
  ensure (bytes.length ≤ componentLen) .ossl
  return (List.replicate (componentLen - bytes.length) 0 ++ bytes, der)

/-- Neither the sequence's length nor what follows the components is looked at. -/
def derToJose (der : Bytes) (componentLen : Nat) : Except CryptoError Bytes := do
  let (tag, der) ← next 1 der
  ensure (tag = [0x30]) .ossl
  let (_, der) ← next 1 der
  let (r, der) ← readInteger componentLen der
  let (s, _) ← readInteger componentLen der
  return r ++ s

def trimZeros : Bytes → Bytes
  | a :: b :: rest => if a = 0 then trimZeros (b :: rest) else a :: b :: rest
  | component => component

def integerValue (component : Bytes) : Bytes :=
  let trimmed := trimZeros component
  if trimmed.headD 0 &&& 0x80 ≠ 0 then 0 :: trimmed else trimmed

def encodeInteger (component : Bytes) : Bytes :=
  let value := integerValue component
  0x02 :: UInt8.ofNat value.length :: value

def joseToDer (raw : Bytes) (componentLen : Nat) : Bytes :=
  let rDer := encodeInteger (raw.take componentLen)
  let sDer := encodeInteger (raw.drop componentLen)
  0x30 :: UInt8.ofNat (rDer.length + sDer.length) :: rDer ++ sDer

section Encoding

theorem ofBe_trimZeros (component : Bytes) :
    Bytes.ofBe (trimZeros component) = Bytes.ofBe component := by
  fun_induction trimZeros component with
  | case1 b rest ih =>
    rw [ih, Bytes.ofBe_cons 0]
    simp
  | case2 => rfl
  | case3 => rfl

theorem trimZeros_ne_nil {component : Bytes} (h : component ≠ []) : trimZeros component ≠ [] := by
  fun_induction trimZeros component with
  | case1 b rest ih => exact ih (List.cons_ne_nil _ _)
  | case2 => exact List.cons_ne_nil _ _
  | case3 => exact h

theorem trimZeros_trimmed (component : Bytes) (b : UInt8) (rest : Bytes) :
    trimZeros component ≠ 0 :: b :: rest := by
  fun_induction trimZeros component with
  | case1 b rest ih => exact ih
  | case2 a b rest ha => simp [ha]
  | case3 component hshort =>
    intro h
    exact hshort 0 b rest h

theorem and_128_ne_zero_iff (b : UInt8) : b &&& 0x80 ≠ 0 ↔ 0x80 ≤ b.toNat := by
  have hall : ∀ n : Fin 256, n.val &&& 0x80 ≠ 0 ↔ 0x80 ≤ n.val := by decide +kernel
  rw [ne_eq, ← UInt8.toNat_inj, UInt8.toNat_and]
  exact hall ⟨b.toNat, b.toNat_lt⟩

theorem isInteger_integerValue {component : Bytes} (h : component ≠ []) :
    Der.IsInteger (integerValue component) (Bytes.ofBe component) := by
  have hvalue := ofBe_trimZeros component
  have htrimmed := trimZeros_trimmed component
  obtain ⟨b, rest, hcons⟩ := List.exists_cons_of_ne_nil (trimZeros_ne_nil h)
  rw [hcons] at hvalue htrimmed
  rw [integerValue, hcons, List.headD_cons]
  by_cases hhigh : 0x80 ≤ b.toNat
  · rw [if_pos ((and_128_ne_zero_iff b).mpr hhigh)]
    refine ⟨?_, ⟨0, rfl, by decide⟩, ?_⟩
    · rw [Bytes.ofBe_cons, hvalue]
      simp
    · intro c tail heq
      cases heq
      exact hhigh
  · rw [if_neg (mt (and_128_ne_zero_iff b).mp hhigh)]
    refine ⟨hvalue, ⟨b, rfl, by omega⟩, ?_⟩
    intro c tail heq
    exact absurd heq (htrimmed c tail)

end Encoding

section Decoding

theorem next_append (pre rest : Bytes) : next pre.length (pre ++ rest) = .ok (pre, rest) := by
  rw [next, if_pos (by simp), List.take_left, List.drop_left]

theorem stripSign_integer {width n : Nat} {content : Bytes} (hn : n < 256 ^ width)
    (hvalue : Bytes.ofBe content = n) (hlen : content.length ≤ width + 1) :
    (stripSign width content).length ≤ width ∧ Bytes.ofBe (stripSign width content) = n := by
  cases content with
  | nil => exact ⟨Nat.zero_le _, hvalue⟩
  | cons b rest =>
    rw [List.length_cons] at hlen
    by_cases hlong : width < (b :: rest).length
    · have hrest : rest.length = width := by
        rw [List.length_cons] at hlong
        omega
      have hzero : b = 0 := by
        rw [Bytes.ofBe_cons, hrest] at hvalue
        have hb : b.toNat = 0 := by
          by_contra hne
          have hle := Nat.mul_le_mul_right (256 ^ width) (show 1 ≤ b.toNat by omega)
          omega
        exact UInt8.toNat_inj.mp hb
      rw [stripSign, if_pos ⟨hlong, by rw [hzero]; rfl⟩]
      refine ⟨hrest.le, ?_⟩
      rw [← hvalue, Bytes.ofBe_cons, hzero]
      simp
    · rw [stripSign, if_neg fun h => hlong h.1]
      exact ⟨by omega, hvalue⟩

theorem readInteger_tlv {width n : Nat} (hwidth : 1 ≤ width) (hshort : width < 127)
    (hn : n < 256 ^ width) {content : Bytes} (h : Der.IsInteger content n) (rest : Bytes) :
    readInteger width (Der.tlv 0x02 content ++ rest) = .ok (Bytes.be width n, rest) := by
  have hlen := h.length_le_of_lt hwidth hn
  have hcount : (UInt8.ofNat content.length).toNat = content.length := by
    rw [UInt8.toNat_ofNat']
    omega
  obtain ⟨hfits, hvalue⟩ := stripSign_integer hn h.value hlen
  have htag := next_append [0x02] (UInt8.ofNat content.length :: (content ++ rest))
  have hlength := next_append [UInt8.ofNat content.length] (content ++ rest)
  have hbytes := next_append content rest
  rw [← hcount] at hbytes
  rw [Der.tlv_short 0x02 (by omega), readInteger]
  simp only [List.cons_append, List.nil_append, List.length_singleton] at htag hlength ⊢
  rw [htag, ok_bind]
  simp only [ensure, if_true, ok_bind]
  rw [hlength, ok_bind]
  simp only [List.headD_cons]
  rw [hbytes, ok_bind]
  change (if (stripSign width content).length ≤ width then (.ok ⟨⟩ : Except CryptoError PUnit)
    else .error .ossl) >>= _ = _
  rw [if_pos hfits, ok_bind]
  exact congrArg (fun padded => Except.ok (padded, rest)) (Bytes.pad_eq_be hfits hvalue)

end Decoding

def IsSigValue (der : Bytes) (r s : Nat) : Prop :=
  ∃ rContent sContent, Der.IsInteger rContent r ∧ Der.IsInteger sContent s ∧
    der = Der.tlv 0x30 (Der.tlv 0x02 rContent ++ Der.tlv 0x02 sContent)

section Transcoding

variable {r s : Nat}

theorem encodeInteger_eq_tlv {component : Bytes} (h : component ≠ [])
    (hlen : component.length ≤ 32) :
    encodeInteger component = Der.tlv 0x02 (integerValue component) := by
  have hle := (isInteger_integerValue h).length_le_of_lt (show 1 ≤ 32 by decide)
    ((Bytes.ofBe_lt component).trans_le (Nat.pow_le_pow_right (by decide) hlen))
  rw [Der.tlv_short 0x02 (by omega), encodeInteger]

theorem length_tlv {content : Bytes} (h : content.length ≤ 33) :
    (Der.tlv 0x02 content).length = 2 + content.length := by
  rw [Der.tlv_short 0x02 (by omega), List.length_cons, List.length_cons]
  omega

theorem tlv_sequence {rContent sContent : Bytes} (hr : rContent.length ≤ 33)
    (hs : sContent.length ≤ 33) :
    Der.tlv 0x30 (Der.tlv 0x02 rContent ++ Der.tlv 0x02 sContent) =
      0x30 :: UInt8.ofNat ((Der.tlv 0x02 rContent).length + (Der.tlv 0x02 sContent).length) ::
        (Der.tlv 0x02 rContent ++ Der.tlv 0x02 sContent) := by
  have hlen : (Der.tlv 0x02 rContent ++ Der.tlv 0x02 sContent).length < 128 := by
    rw [List.length_append, length_tlv hr, length_tlv hs]
    omega
  rw [Der.tlv_short 0x30 hlen, List.length_append]

theorem derToJose_sigValue (hr : r < 256 ^ 32) (hs : s < 256 ^ 32) {der : Bytes}
    (h : IsSigValue der r s) : derToJose der 32 = .ok (Bytes.be 32 r ++ Bytes.be 32 s) := by
  obtain ⟨rContent, sContent, hrInt, hsInt, rfl⟩ := h
  have hrLen := hrInt.length_le_of_lt (show 1 ≤ 32 by decide) hr
  have hsLen := hsInt.length_le_of_lt (show 1 ≤ 32 by decide) hs
  have hrRead := readInteger_tlv (by decide) (by decide) hr hrInt (Der.tlv 0x02 sContent)
  have hsRead := readInteger_tlv (by decide) (by decide) hs hsInt []
  rw [List.append_nil] at hsRead
  rw [tlv_sequence hrLen hsLen, derToJose]
  change (readInteger 32 (Der.tlv 0x02 rContent ++ Der.tlv 0x02 sContent) >>= _) = _
  rw [hrRead, ok_bind]
  change (readInteger 32 (Der.tlv 0x02 sContent) >>= _) = _
  rw [hsRead]
  rfl

theorem isSigValue_joseToDer {raw : Bytes} (h : raw.length = 64) :
    IsSigValue (joseToDer raw 32) (Bytes.ofBe (raw.take 32)) (Bytes.ofBe (raw.drop 32)) := by
  have htake : (raw.take 32).length = 32 := by
    rw [List.length_take]
    omega
  have hdrop : (raw.drop 32).length = 32 := by
    rw [List.length_drop]
    omega
  have hrNe : raw.take 32 ≠ [] := List.ne_nil_of_length_pos (by omega)
  have hsNe : raw.drop 32 ≠ [] := List.ne_nil_of_length_pos (by omega)
  have hrInt := isInteger_integerValue hrNe
  have hsInt := isInteger_integerValue hsNe
  have hrLt := Bytes.ofBe_lt (raw.take 32)
  have hsLt := Bytes.ofBe_lt (raw.drop 32)
  rw [htake] at hrLt
  rw [hdrop] at hsLt
  refine ⟨_, _, hrInt, hsInt, ?_⟩
  rw [tlv_sequence (hrInt.length_le_of_lt (by decide) hrLt)
    (hsInt.length_le_of_lt (by decide) hsLt), joseToDer, encodeInteger_eq_tlv hrNe htake.le,
    encodeInteger_eq_tlv hsNe hdrop.le]
  rfl

theorem IsSigValue.unique {der der' : Bytes} (h : IsSigValue der r s) (h' : IsSigValue der' r s) :
    der = der' := by
  obtain ⟨rContent, sContent, hr, hs, rfl⟩ := h
  obtain ⟨rContent', sContent', hr', hs', rfl⟩ := h'
  rw [hr.unique hr', hs.unique hs']

theorem jose_eq_be {raw : Bytes} (h : raw.length = 64) :
    Bytes.be 32 (Bytes.ofBe (raw.take 32)) ++ Bytes.be 32 (Bytes.ofBe (raw.drop 32)) = raw := by
  have htake := Bytes.be_ofBe (raw.take 32)
  have hdrop := Bytes.be_ofBe (raw.drop 32)
  rw [List.length_take, h] at htake
  rw [List.length_drop, h] at hdrop
  exact (congrArg₂ (· ++ ·) htake hdrop).trans (List.take_append_drop 32 raw)

/-- A fixed-size signature survives the way to the encoding and back, and an
encoded one the way to the fixed size and back. -/
theorem ecdsa_transcoding {raw : Bytes} (hraw : raw.length = 64) {der : Bytes}
    (hr : r < 2 ^ 256) (hs : s < 2 ^ 256) (hder : IsSigValue der r s) :
    derToJose (joseToDer raw 32) 32 = .ok raw ∧
      derToJose der 32 = .ok (Bytes.be 32 r ++ Bytes.be 32 s) ∧
      joseToDer (Bytes.be 32 r ++ Bytes.be 32 s) 32 = der := by
  have hpow : 2 ^ 256 = 256 ^ 32 := by norm_num
  rw [hpow] at hr hs
  have hlt : ∀ bs : Bytes, bs.length ≤ 32 → Bytes.ofBe bs < 256 ^ 32 := fun bs hlen =>
    (Bytes.ofBe_lt bs).trans_le (Nat.pow_le_pow_right (by decide) hlen)
  refine ⟨?_, derToJose_sigValue hr hs hder, ?_⟩
  · rw [derToJose_sigValue (hlt _ (List.length_take_le 32 raw))
      (hlt _ (by rw [List.length_drop]; omega)) (isSigValue_joseToDer hraw), jose_eq_be hraw]
  · have hjose := isSigValue_joseToDer (show (Bytes.be 32 r ++ Bytes.be 32 s).length = 64 by simp)
    rw [List.take_left' (Bytes.length_be 32 r), List.drop_left' (Bytes.length_be 32 r),
      Bytes.ofBe_be_of_lt hr, Bytes.ofBe_be_of_lt hs] at hjose
    exact hjose.unique hder

theorem ecdsa_transcoding_short :
    derToJose (joseToDer (List.replicate 64 0) 32) 32 = .ok (List.replicate 64 0) ∧
      derToJose [0x30, 7, 2, 1, 1, 2, 2, 0, 128] 32 = .ok (Bytes.be 32 1 ++ Bytes.be 32 128) ∧
      joseToDer (Bytes.be 32 1 ++ Bytes.be 32 128) 32 = [0x30, 7, 2, 1, 1, 2, 2, 0, 128] :=
  ecdsa_transcoding List.length_replicate (by norm_num) (by norm_num)
    ⟨[1], [0, 128], ⟨rfl, ⟨1, rfl, by decide⟩, nofun⟩,
      ⟨rfl, ⟨0, rfl, by decide⟩, fun b rest h => by cases h; decide⟩, rfl⟩

end Transcoding

end IronDirectory.Crypto.Jose
