import IronDirectory.Defs.Crypto.Kerberos
import IronDirectory.Defs.Crypto.NFoldLaws

namespace IronDirectory.Crypto

open Base Outcome

namespace Enctype

theorem hmacLen_le_size (e : Enctype) : e.hmacLen ≤ e.digest.size := by
  cases e <;> decide

theorem keyLen_cases (e : Enctype) : e.keyLen = 16 ∨ e.keyLen = 32 := by
  cases e <;> decide

theorem bits_cases (e : Enctype) {bits : Nat} (h : bits = 8 * e.keyLen ∨ bits = e.kiBits) :
    16 ≤ (bits + 7) / 8 ∧ if e.isRfc8009 then e.digest ≠ .sha1 ∧ (bits + 7) / 8 ≤ e.digest.size
      else (bits + 7) / 8 = e.keyLen := by
  rcases h with rfl | rfl <;> cases e <;> decide

end Enctype

namespace Ossl

variable (o : Ossl)

structure Lawful : Prop where
  random_length : ∀ {s n b}, o.random s n = .ok b → b.length = n
  cbc_length : ∀ {k b c}, o.aesCbc k b = .ok c → c.length = b.length
  encrypt_length : ∀ {k iv p c}, o.aesCtsEncrypt k iv p = .ok c → c.length = p.length
  decrypt_length : ∀ {k iv c p}, o.aesCtsDecrypt k iv c = .ok p → p.length = c.length
  decrypt_encrypt : ∀ {k iv p c}, o.aesCtsEncrypt k iv p = .ok c → o.aesCtsDecrypt k iv c = .ok p
  hmac_length : ∀ {d k m h}, o.hmac d k m = .ok h → h.length = d.size
  cbc_works : ∀ {k b : Bytes}, k.length = 16 ∨ k.length = 32 → b.length = 16 →
    ∃ c, o.aesCbc k b = .ok c
  encrypt_works : ∀ {k p : Bytes}, k.length = 16 ∨ k.length = 32 → 16 ≤ p.length →
    ∃ c, o.aesCtsEncrypt k zeroIv p = .ok c
  hmac_works : ∀ d {k : Bytes} m, 16 ≤ k.length → ∃ h, o.hmac d k m = .ok h
  exists_draw : ∃ s, o.newContext s = .ok () ∧ ∀ n, ∃ b, o.random s n = .ok b

def plain : Ossl where
  newContext _ := .ok ()
  random _ n := .ok (List.replicate n 0)
  aesCbc _ b := .ok b
  aesCtsEncrypt _ _ p := .ok p
  aesCtsDecrypt _ _ c := .ok c
  hmac d _ _ := .ok (List.replicate d.size 0)
  pbkdf2 _ _ _ _ n := .ok (List.replicate n 0)

theorem plain_lawful : plain.Lawful where
  random_length h := by
    cases h
    exact List.length_replicate
  cbc_length h := by
    cases h
    rfl
  encrypt_length h := by
    cases h
    rfl
  decrypt_length h := by
    cases h
    rfl
  decrypt_encrypt h := by
    cases h
    rfl
  hmac_length h := by
    cases h
    exact List.length_replicate
  cbc_works _ _ := ⟨_, rfl⟩
  encrypt_works _ _ := ⟨_, rfl⟩
  hmac_works _ _ _ _ := ⟨_, rfl⟩
  exists_draw := ⟨0, rfl, fun _ => ⟨_, rfl⟩⟩

/-- The call does not panic, succeeds on good inputs, and what it returns is
then as described. -/
structure Yields {α : Type} (x : Except Failure α) (P : α → Prop) (good : Prop) : Prop where
  noPanic : x ≠ .error .panic
  ok : ∀ {a}, x = .ok a → P a
  works : good → ∃ a, x = .ok a

section Yields

variable {α β : Type} {P : α → Prop} {Q : β → Prop} {good : Prop}

theorem yields_ok {a : α} (h : P a) : Yields (.ok a) P good where
  noPanic := nofun
  ok := by
    rintro _ ⟨⟩
    exact h
  works _ := ⟨a, rfl⟩

theorem Yields.bind {x : Except Failure α} {f : α → Except Failure β} (hx : Yields x P good)
    (hf : ∀ a, P a → Yields (f a) Q good) : Yields (x >>= f) Q good := by
  cases x with
  | ok a => exact hf a (hx.ok rfl)
  | error e =>
    refine ⟨fun h => hx.noPanic (Except.error.inj h ▸ rfl), nofun, fun hgood => ?_⟩
    obtain ⟨a, ha⟩ := hx.works hgood
    cases ha

theorem Yields.of_good {x : Except Failure α} {good' : Prop} (h : Yields x P good)
    (hgood : good' → ∃ a, x = .ok a) : Yields x P good' :=
  ⟨h.noPanic, h.ok, hgood⟩

theorem yields_call {x : Except CryptoError α} (hok : ∀ {a}, x = .ok a → P a)
    (hworks : good → ∃ a, x = .ok a) : Yields (call x) P good := by
  cases x with
  | ok a => exact yields_ok (hok rfl)
  | error e =>
    refine ⟨nofun, nofun, fun hgood => ?_⟩
    obtain ⟨a, ha⟩ := hworks hgood
    cases ha

theorem yields_ensure {p : Prop} [Decidable p] {e : CryptoError} (h : good → p) :
    Yields (ensure p (Failure.error e)) (fun _ => p) good := by
  unfold ensure
  split
  · next hp => exact yields_ok hp
  · next hp => exact ⟨nofun, nofun, fun hgood => absurd (h hgood) hp⟩

theorem yields_assert {p : Prop} [Decidable p] (h : p) :
    Yields (ensure p Failure.panic) (fun _ => True) good := by
  rw [ensure, if_pos h]
  exact yields_ok trivial

theorem yields_upTo {bs : Bytes} {n : Nat} (h : n ≤ bs.length) :
    Yields (upTo bs n) (fun out => out.length = n) good := by
  rw [upTo, if_pos h]
  exact yields_ok (List.length_take_of_le h)

end Yields

section Parts

variable {o} (h : o.Lawful) {good : Prop}
include h

theorem Lawful.block {key block : Bytes} (hblock : block.length = 16) :
    Yields (o.aesCbcEncryptBlock key block) (fun b => b.length = 16)
      (key.length = 16 ∨ key.length = 32) :=
  (yields_ensure id).bind fun _ hkey =>
    yields_call (fun hb => (h.cbc_length hb).trans hblock) fun _ => h.cbc_works hkey hblock

theorem Lawful.drLoop {key : Bytes} {keyLen fuel : Nat} {out block : Bytes}
    (hblock : block.length = 16) (hfuel : keyLen ≤ out.length + fuel) :
    Yields (o.drLoop key keyLen fuel out block) (fun b => b.length = keyLen)
      (key.length = 16 ∨ key.length = 32) := by
  induction fuel generalizing out block with
  | zero =>
    have hlen : ¬ out.length < keyLen := Nat.not_lt.mpr hfuel
    rw [Ossl.drLoop, if_neg hlen]
    exact yields_ok (List.length_take_of_le hfuel)
  | succ fuel ih =>
    rw [Ossl.drLoop]
    split
    · refine (h.block hblock).bind fun next hnext => ih hnext ?_
      rw [List.length_append]
      omega
    · next hlen => exact yields_ok (List.length_take_of_le (Nat.le_of_not_lt hlen))

theorem Lawful.dr (key : Bytes) {constant : Bytes} (hconstant : constant ≠ [])
    (hshort : constant.length < 2 ^ 54) (keyLen : Nat) :
    Yields (o.dr key constant keyLen) (fun b => b.length = keyLen)
      (key.length = 16 ∨ key.length = 32) := by
  have hpos := List.length_pos_of_ne_nil hconstant
  have hlcm : Nat.lcm (8 * constant.length) (8 * 16) ≤ 8 * constant.length * (8 * 16) :=
    Nat.lcm_le_mul (by omega) (by decide)
  obtain ⟨folded, hfolded, hlen, _⟩ := NFold.exists_nFold false 0 hconstant
    (show 0 < 16 by decide) (by omega)
  rw [Ossl.dr, hfolded, require_some, ok_bind]
  exact (h.block hlen).bind fun block hblock => h.drLoop hblock (Nat.le_add_left _ _)

theorem Lawful.hmac {d : Digest} {k m : Bytes} (hk : good → 16 ≤ k.length) :
    Yields (call (o.hmac d k m)) (fun out => out.length = d.size) good :=
  yields_call h.hmac_length fun hgood => h.hmac_works d m (hk hgood)

theorem Lawful.kdfHmacSha2 (key label : Bytes) {kBits : Nat} {digest : Digest}
    (hdigest : digest ≠ .sha1) (hbits : (kBits + 7) / 8 ≤ digest.size) :
    Yields (o.kdfHmacSha2 key label kBits digest) (fun b => b.length = (kBits + 7) / 8)
      (16 ≤ key.length) := by
  refine (yields_ensure fun _ => hdigest).bind fun _ _ => (h.hmac id).bind fun out hout => ?_
  exact yields_ok (List.length_take_of_le (hout ▸ hbits))

theorem Lawful.derive (e : Enctype) (key : Bytes) (usage : UInt32) (purpose : UInt8) {bits : Nat}
    (hbits : bits = 8 * e.keyLen ∨ bits = e.kiBits) :
    Yields (o.derive e key usage purpose bits) (fun b => b.length = (bits + 7) / 8)
      (key.length = e.keyLen) := by
  have hlen := (e.bits_cases hbits).2
  unfold Ossl.derive
  split at hlen
  · next hnew =>
    have hkdf := h.kdfHmacSha2 key (Bytes.be 4 usage.toNat ++ [purpose]) hlen.1 hlen.2
    rw [if_pos hnew]
    refine hkdf.of_good fun hkey => hkdf.works ?_
    cases e.keyLen_cases with
    | inl h16 => omega
    | inr h32 => omega
  · next hold =>
    have hlabel : (Bytes.be 4 usage.toNat ++ [purpose]).length = 5 := by
      rw [List.length_append, Bytes.length_be]
      rfl
    have hdr := h.dr key (List.ne_nil_of_length_eq_add_one hlabel) (by omega) e.keyLen
    rw [if_neg hold, hlen]
    exact hdr.of_good fun hkey => hdr.works (hkey ▸ e.keyLen_cases)

theorem Lawful.deriveKeKi (e : Enctype) (key : Bytes) (usage : UInt32) :
    Yields (o.deriveKeKi e key usage)
      (fun keys => (keys.ke.length = 16 ∨ keys.ke.length = 32) ∧ 16 ≤ keys.ki.length)
      (key.length = e.keyLen) := by
  refine (h.derive e key usage 0xAA (.inl rfl)).bind fun ke hke => ?_
  refine (h.derive e key usage 0x55 (.inr rfl)).bind fun ki hki => yields_ok ⟨?_, ?_⟩
  · rw [hke, show (8 * e.keyLen + 7) / 8 = e.keyLen by omega]
    exact e.keyLen_cases
  · exact hki ▸ (e.bits_cases (.inr rfl)).1

theorem Lawful.ctsEncrypt {k p : Bytes} (hk : k.length = 16 ∨ k.length = 32) (hp : 16 ≤ p.length) :
    Yields (o.ctsEncrypt k zeroIv p) (fun c => c.1.length = p.length) good := by
  refine (yields_ensure fun _ => hk).bind fun _ _ => ?_
  refine (yields_call h.encrypt_length fun _ => h.encrypt_works hk hp).bind fun c hc => ?_
  exact (yields_assert (hc ▸ hp)).bind fun _ _ => yields_ok hc

theorem Lawful.ctsDecrypt (k c : Bytes) :
    Yields (o.ctsDecrypt k zeroIv c) (fun p => p.length = c.length) False :=
  (yields_ensure nofun).bind fun _ _ => yields_call h.decrypt_length nofun

end Parts

section Operations

theorem constantTimeEq_iff {a b : Bytes} : constantTimeEq a b = true ↔ a = b := by
  have hfold : ∀ (a b : Bytes) (diff : UInt8), a.length = b.length →
      ((a.zip b).foldl (fun diff x => diff ||| (x.1 ^^^ x.2)) diff = 0 ↔ diff = 0 ∧ a = b) := by
    intro a
    induction a with
    | nil =>
      intro b diff hlen
      cases b with
      | nil => simp
      | cons y b => cases hlen
    | cons x a ih =>
      intro b diff hlen
      cases b with
      | nil => cases hlen
      | cons y b =>
        rw [List.zip_cons_cons, List.foldl_cons, ih b _ (Nat.succ.inj hlen), UInt8.or_eq_zero_iff,
          UInt8.xor_eq_zero_iff, List.cons.injEq, and_assoc]
  rw [constantTimeEq]
  split
  · next hlen => exact ⟨nofun, fun heq => absurd (congrArg List.length heq) hlen⟩
  · next hlen => simpa using hfold a b 0 (not_not.mp hlen)

variable {o} (h : o.Lawful) (e : Enctype) (key : Bytes) (usage : UInt32)
include h

theorem Lawful.encrypt (draw : Nat) (p : Bytes) :
    Yields (o.encrypt draw e key usage p) (fun b => b.length = p.length + 16 + e.hmacLen)
      ((∃ keys, o.deriveKeKi e key usage = .ok keys) ∧ ∃ b, o.random draw 16 = .ok b) := by
  refine ((h.deriveKeKi e key usage).of_good And.left).bind fun keys hkeys => ?_
  refine (yields_call h.random_length And.right).bind fun confounder hconf => ?_
  have hlen : (confounder ++ p).length = p.length + 16 := by
    rw [List.length_append, hconf, Nat.add_comm]
  refine (h.ctsEncrypt hkeys.1 (by omega)).bind fun c hc => ?_
  refine (h.hmac fun _ => hkeys.2).bind fun out hout => ?_
  refine (yields_upTo (hout ▸ e.hmacLen_le_size)).bind fun tag htag => yields_ok ?_
  rw [List.length_append, hc, hlen, htag]

theorem Lawful.decrypt (b : Bytes) : Yields (o.decrypt e key usage b) (fun _ => True) False := by
  refine (yields_ensure nofun).bind fun _ hlen => ?_
  have hc : 16 ≤ (b.take (b.length - e.hmacLen)).length := by
    rw [List.length_take]
    omega
  refine ((h.deriveKeKi e key usage).of_good nofun).bind fun keys _ => ?_
  split
  · refine (h.hmac nofun).bind fun out hout => ?_
    refine (yields_upTo (hout ▸ e.hmacLen_le_size)).bind fun tag _ => ?_
    refine (yields_ensure nofun).bind fun _ _ => (h.ctsDecrypt _ _).bind fun confPt hconf => ?_
    exact (yields_assert (hconf ▸ hc)).bind fun _ _ => yields_ok trivial
  · refine (h.ctsDecrypt _ _).bind fun confPt hconf => (h.hmac nofun).bind fun out hout => ?_
    refine (yields_upTo (hout ▸ e.hmacLen_le_size)).bind fun tag _ => ?_
    refine (yields_ensure nofun).bind fun _ _ => ?_
    exact (yields_assert (hconf ▸ hc)).bind fun _ _ => yields_ok trivial

theorem Lawful.checksum (m : Bytes) :
    Yields (o.checksum e key usage m) (fun b => b.length = e.hmacLen) (key.length = e.keyLen) := by
  refine (h.derive e key usage 0x99 (.inr rfl)).bind fun kc hkc => ?_
  refine (h.hmac fun _ => hkc ▸ (e.bits_cases (.inr rfl)).1).bind fun out hout => ?_
  exact yields_upTo (hout ▸ e.hmacLen_le_size)

theorem Lawful.stringToKey (pass salt : Bytes) (iterations : Option UInt32) :
    Yields (o.stringToKey e pass salt iterations) (fun b => b.length = e.keyLen) False := by
  have hbits := (e.bits_cases (.inl rfl)).2
  rw [Ossl.stringToKey]
  split at hbits
  · next hnew =>
    rw [if_pos hnew]
    refine Yields.bind (P := fun _ => True) (yields_call (fun _ => trivial) nofun) fun tkey _ => ?_
    have hkdf := h.kdfHmacSha2 tkey (Str.toUtf8 "kerberos") hbits.1 hbits.2
    exact ⟨hkdf.noPanic, fun hb => (hkdf.ok hb).trans (by omega), nofun⟩
  · next hold =>
    rw [if_neg hold]
    refine Yields.bind (P := fun _ => True) (yields_call (fun _ => trivial) nofun) fun tkey _ => ?_
    exact (h.dr tkey (by decide) (by decide) e.keyLen).of_good nofun

variable {e key usage}

theorem Lawful.open_encrypt {draw : Nat} {p b : Bytes}
    (hb : o.encrypt draw e key usage p = .ok b) : o.decrypt e key usage b = .ok p := by
  have hlen := (h.encrypt e key usage draw p).ok hb
  simp only [Ossl.encrypt, Ossl.ctsEncrypt, call, bind_eq_ok, mapError_eq_ok, ensure_eq_ok,
    pure_eq_ok] at hb
  obtain ⟨keys, hkeys, confounder, hrandom, _, ⟨_, _, c, hc, _, _, rfl⟩, out, hout, tag, htag, rfl⟩ :=
    hb
  have hconf := h.random_length hrandom
  have hsize := h.hmac_length hout ▸ e.hmacLen_le_size
  obtain ⟨rfl⟩ := (if_pos hsize).symm.trans htag
  have htagLen := List.length_take_of_le hsize
  have hcut : (c ++ out.take e.hmacLen).length - e.hmacLen = c.length := by
    rw [List.length_append, htagLen, Nat.add_sub_cancel]
  have hopen : o.ctsDecrypt keys.ke zeroIv c = .ok (confounder ++ p) := by
    simp only [Ossl.ctsDecrypt, checkKey, ensure, if_pos ((h.deriveKeKi e key usage).ok hkeys).1,
      ok_bind, call, h.decrypt_encrypt hc, Except.mapError]
  have hsame : constantTimeEq (out.take e.hmacLen) (out.take e.hmacLen) = true :=
    constantTimeEq_iff.mpr rfl
  simp only [Ossl.decrypt, bind_eq_ok, ensure_eq_ok, hcut, List.take_left, List.drop_left, hkeys,
    Except.ok.injEq, exists_eq_left']
  refine ⟨⟨⟩, by omega, ?_⟩
  split at hout
  · next hnew =>
    simp only [if_pos hnew, call, hout, Except.mapError, ok_bind, htag, hsame, hopen, ensure]
    simp [hconf]
  · next hold =>
    simp only [if_neg hold, call, hout, Except.mapError, ok_bind, htag, hsame, hopen, ensure]
    simp [hconf]

end Operations

/-- Over a lawful library the code is the cipher that the daemons rely on, and a
ciphertext is longer than its text by the confounder and the tag. -/
theorem cipher_lawful {o : Ossl} (h : o.Lawful) : o.cipher.Lawful ∧
    ∀ {s e k u p b}, o.cipher.encrypt s e k u p = .ok b →
      b.length = p.length + 16 + e.hmacLen := by
  refine ⟨⟨?_, h.random_length, ?_, ?_⟩, fun hb => (h.encrypt _ _ _ _ _).ok (mapError_eq_ok.mp hb)⟩
  · intro s e k u p b hb
    exact mapError_eq_ok.mpr (h.open_encrypt (mapError_eq_ok.mp hb))
  · intro e k u hk
    obtain ⟨s, -, hrandom⟩ := h.exists_draw
    obtain ⟨b, hb⟩ := (h.encrypt e k u s []).works ⟨(h.deriveKeKi e k u).works hk, hrandom 16⟩
    exact ⟨b, [], mapError_eq_ok.mpr (h.open_encrypt hb)⟩
  · obtain ⟨s, hnew, hrandom⟩ := h.exists_draw
    refine ⟨s, hnew, hrandom, fun p hopens => ?_⟩
    obtain ⟨b, p', hb⟩ := hopens
    -- a key that opens something could be derived from
    have hb' := mapError_eq_ok.mp hb
    simp only [decrypt, bind_eq_ok] at hb'
    obtain ⟨-, -, keys, hkeys, -⟩ := hb'
    obtain ⟨out, hout⟩ := (h.encrypt _ _ _ s p).works ⟨⟨keys, hkeys⟩, hrandom 16⟩
    exact ⟨out, mapError_eq_ok.mpr hout⟩

theorem cipher_lawful_plain : plain.Lawful ∧ plain.cipher.Lawful :=
  ⟨plain_lawful, (cipher_lawful plain_lawful).1⟩

/-- Whatever bytes come in, no operation panics or goes on for ever, and keys and
checksums have the length that goes with the enctype. -/
theorem operations_noPanic {o : Ossl} (h : o.Lawful) (e : Enctype) (key : Bytes) (usage : UInt32) :
    (∀ b, o.decrypt e key usage b ≠ .error .panic) ∧
    (∀ draw p, o.encrypt draw e key usage p ≠ .error .panic) ∧
    (∀ m, o.checksum e key usage m ≠ .error .panic ∧
      ∀ tag, o.checksum e key usage m = .ok tag → tag.length = e.hmacLen) ∧
    ∀ pass salt i, o.stringToKey e pass salt i ≠ .error .panic ∧
      ∀ k, o.stringToKey e pass salt i = .ok k → k.length = e.keyLen := by
  refine ⟨fun b => (h.decrypt e key usage b).noPanic,
    fun draw p => (h.encrypt e key usage draw p).noPanic, fun m => ?_, fun pass salt i => ?_⟩
  · exact ⟨(h.checksum e key usage m).noPanic, fun _ => (h.checksum e key usage m).ok⟩
  · exact ⟨(h.stringToKey e pass salt i).noPanic, fun _ => (h.stringToKey e pass salt i).ok⟩

theorem operations_noPanic_plain : plain.Lawful ∧
    plain.decrypt .aes256CtsHmacSha384_192 [1] 3 (List.replicate 40 7) ≠ .error .panic :=
  ⟨plain_lawful, (operations_noPanic plain_lawful .aes256CtsHmacSha384_192 [1] 3).1 _⟩

end Ossl

end IronDirectory.Crypto
