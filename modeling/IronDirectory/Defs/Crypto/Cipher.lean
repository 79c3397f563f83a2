import IronDirectory.Defs.Base.Outcome
import IronDirectory.Defs.Base.Text

namespace IronDirectory.Crypto

open Base

inductive Enctype
  | aes128CtsHmacSha1_96
  | aes256CtsHmacSha1_96
  | aes128CtsHmacSha256_128
  | aes256CtsHmacSha384_192
  deriving DecidableEq

namespace Enctype

def etypeNumber : Enctype → Int32
  | aes128CtsHmacSha1_96 => 17
  | aes256CtsHmacSha1_96 => 18
  | aes128CtsHmacSha256_128 => 19
  | aes256CtsHmacSha384_192 => 20

def keyLen : Enctype → Nat
  | aes128CtsHmacSha1_96 => 16
  | aes256CtsHmacSha1_96 => 32
  | aes128CtsHmacSha256_128 => 16
  | aes256CtsHmacSha384_192 => 32

def hmacLen : Enctype → Nat
  | aes128CtsHmacSha1_96 => 12
  | aes256CtsHmacSha1_96 => 12
  | aes128CtsHmacSha256_128 => 16
  | aes256CtsHmacSha384_192 => 24

def ofNumber (v : Int32) : Option Enctype :=
  if v = 17 then some aes128CtsHmacSha1_96
  else if v = 18 then some aes256CtsHmacSha1_96
  else if v = 19 then some aes128CtsHmacSha256_128
  else if v = 20 then some aes256CtsHmacSha384_192
  else none

@[simp] theorem ofNumber_etypeNumber (e : Enctype) : ofNumber e.etypeNumber = some e := by
  cases e <;> rfl

theorem etypeNumber_injective {e f : Enctype} (h : e.etypeNumber = f.etypeNumber) : e = f := by
  have := congrArg ofNumber h
  simpa using this

theorem ofNumber_eq_some_iff {v : Int32} {e : Enctype} : ofNumber v = some e ↔ v = e.etypeNumber := by
  constructor
  · unfold ofNumber
    intro h
    split_ifs at h with h17 h18 h19 h20
    · cases h
      exact h17
    · cases h
      exact h18
    · cases h
      exact h19
    · cases h
      exact h20
  · rintro rfl
    exact ofNumber_etypeNumber e

end Enctype

inductive CryptoError
  | ossl
  | bufferSize
  | fipsProviderNotActive
  | passwordTooShort (min actual : Nat)
  | integrityCheckFailed
  deriving DecidableEq

def CryptoError.display : CryptoError → Str
  | ossl => "OpenSSL operation failed"
  | bufferSize => "buffer size mismatch"
  | fipsProviderNotActive =>
    "the OpenSSL FIPS provider is not active in this process — set " ++
      "OPENSSL_CONF to a config with [provider_sect] fips = fips_sect / " ++
      "[fips_sect] activate = 1, module = /usr/lib64/ossl-modules/fips.so " ++
      "(see docs/FIPS.md)"
  | passwordTooShort min actual =>
    "password is " ++ (toString actual).toList ++ " bytes, shorter than the FIPS PBKDF2 minimum of "
      ++ (toString min).toList
  | integrityCheckFailed =>
    "integrity check failed (Kerberos HMAC mismatch or tampered ciphertext)"

def minSaltLen : Nat := 16

/-- The operations of the Kerberos crypto module.  Operations that draw
randomness take the draw as a number. -/
structure Cipher where
  newContext : Nat → Except CryptoError Unit
  randomBytes : Nat → Nat → Except CryptoError Bytes
  stringToKey : Enctype → Bytes → Bytes → Option UInt32 → Except CryptoError Bytes
  encrypt : Nat → Enctype → Bytes → UInt32 → Bytes → Except CryptoError Bytes
  decrypt : Enctype → Bytes → UInt32 → Bytes → Except CryptoError Bytes
  checksum : Enctype → Bytes → UInt32 → Bytes → Except CryptoError Bytes

namespace Cipher

/-- Some ciphertext opens under the key: the library accepts it. -/
def Opens (c : Cipher) (e : Enctype) (k : Bytes) (usage : UInt32) : Prop :=
  ∃ b p, c.decrypt e k usage b = .ok p

structure Works (c : Cipher) (s : Nat) : Prop where
  newContext : c.newContext s = .ok ()
  randomBytes : ∀ n, ∃ b, c.randomBytes s n = .ok b
  encrypt : ∀ {e k u} p, c.Opens e k u → ∃ b, c.encrypt s e k u p = .ok b

structure Lawful (c : Cipher) : Prop where
  decrypt_encrypt : ∀ {s e k u p b}, c.encrypt s e k u p = .ok b → c.decrypt e k u b = .ok p
  random_length : ∀ {s n b}, c.randomBytes s n = .ok b → b.length = n
  opens_of_length : ∀ {e k} u, k.length = e.keyLen → c.Opens e k u
  exists_draw : ∃ s, c.Works s

theorem Lawful.opens_of_encrypt {c : Cipher} (h : c.Lawful) {s : Nat} {e : Enctype} {k : Bytes}
    {u : UInt32} {p b : Bytes} (henc : c.encrypt s e k u p = .ok b) : c.Opens e k u :=
  ⟨b, p, h.decrypt_encrypt henc⟩

def KeySeparating (c : Cipher) : Prop :=
  ∀ {s e k u p b k' p'}, c.encrypt s e k u p = .ok b → c.decrypt e k' u b = .ok p' → k' = k

def Exact (c : Cipher) : Prop :=
  ∀ {s e k u p b e' k' p'}, c.encrypt s e k u p = .ok b → c.decrypt e' k' u b = .ok p' →
    e' = e ∧ k' = k

theorem Exact.keySeparating {c : Cipher} (h : c.Exact) : c.KeySeparating :=
  fun henc hdec => (h henc hdec).2

def idealHeader (e : Enctype) (k : Bytes) (u : UInt32) : Bytes :=
  UInt8.ofNat e.etypeNumber.toInt.toNat :: UInt8.ofNat (u.toNat / 2 ^ 24) ::
    UInt8.ofNat (u.toNat / 2 ^ 16) :: UInt8.ofNat (u.toNat / 2 ^ 8) :: UInt8.ofNat u.toNat ::
      (List.replicate k.length 1 ++ 0 :: k)

/-- The ideal cipher: a text that names its key and opens only with it. -/
def ideal : Cipher where
  newContext _ := .ok ()
  randomBytes _ n := .ok (List.replicate n 0)
  stringToKey e pass salt _ := .ok ((pass ++ salt ++ List.replicate e.keyLen 0).take e.keyLen)
  encrypt _ e k u p := .ok (idealHeader e k u ++ p)
  decrypt e k u b :=
    if (idealHeader e k u).isPrefixOf b then .ok (b.drop (idealHeader e k u).length)
    else .error .integrityCheckFailed
  checksum e _ _ _ := .ok (List.replicate e.hmacLen 0)

theorem ideal_decrypt_encrypt (e : Enctype) (k : Bytes) (u : UInt32) (p : Bytes) :
    ideal.decrypt e k u (idealHeader e k u ++ p) = .ok p := by
  simp [ideal]

theorem ideal_lawful : ideal.Lawful where
  decrypt_encrypt := by
    intro s e k u p b h
    cases h
    exact ideal_decrypt_encrypt e k u p
  random_length := by
    intro s n b h
    cases h
    exact List.length_replicate
  opens_of_length := fun u _ => ⟨_, [], ideal_decrypt_encrypt _ _ u []⟩
  exists_draw := ⟨0, rfl, fun _ => ⟨_, rfl⟩, fun _ _ => ⟨_, rfl⟩⟩

theorem replicate_one_append_inj {m n : Nat} {x y : Bytes}
    (h : List.replicate m (1 : UInt8) ++ 0 :: x = List.replicate n 1 ++ 0 :: y) :
    m = n ∧ x = y := by
  induction m generalizing n with
  | zero =>
    cases n with
    | zero => simpa using h
    | succ n => simp [List.replicate_succ] at h
  | succ m ih =>
    cases n with
    | zero => simp [List.replicate_succ] at h
    | succ n =>
      simp only [List.replicate_succ, List.cons_append, List.cons.injEq, true_and] at h
      obtain ⟨hm, hx⟩ := ih h
      exact ⟨congrArg (· + 1) hm, hx⟩

theorem ideal_keySeparating : ideal.KeySeparating := by
  intro s e k u p b k' p' henc hdec
  cases henc
  simp only [ideal] at hdec
  split at hdec
  case isFalse => cases hdec
  case isTrue hpre =>
    obtain ⟨t, ht⟩ : idealHeader e k' u <+: idealHeader e k u ++ p := by simpa using hpre
    simp only [idealHeader, List.cons_append, List.append_assoc, List.cons.injEq, true_and] at ht
    obtain ⟨hlen, hkt⟩ := replicate_one_append_inj ht
    exact List.append_inj_left hkt hlen

theorem ideal_exact : ideal.Exact := by
  intro s e k u p b e' k' p' henc hdec
  have he : e' = e := by
    cases henc
    simp only [ideal] at hdec
    split at hdec
    case isFalse => cases hdec
    case isTrue hpre =>
      obtain ⟨t, ht⟩ : idealHeader e' k' u <+: idealHeader e k u ++ p := by simpa using hpre
      have hfirst := (List.cons.inj ht).1
      cases e <;> cases e' <;> first | rfl | exact absurd hfirst (by decide)
  subst he
  exact ⟨rfl, ideal_keySeparating henc hdec⟩

end Cipher

end IronDirectory.Crypto
