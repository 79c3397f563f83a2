import IronDirectory.Defs.Base.Octets
import IronDirectory.Defs.Ldap.Gssapi

namespace IronDirectory.Ldap.Gssapi

open Base Outcome

section Lengths

def lengthOctets (len : Nat) : Bytes := (Bytes.be 8 len).dropWhile (· == 0)

theorem ofBe_lengthOctets {len : Nat} (h : len < 2 ^ 64) : Bytes.ofBe (lengthOctets len) = len := by
  rw [lengthOctets, Bytes.ofBe_dropWhile_zero]
  exact Bytes.ofBe_be_of_lt h

theorem length_lengthOctets_le (len : Nat) : (lengthOctets len).length ≤ 8 := by
  have hsub := (List.dropWhile_sublist (· == 0) (l := Bytes.be 8 len)).length_le
  rwa [Bytes.length_be] at hsub

theorem length_lengthOctets_pos {len : Nat} (h : len < 2 ^ 64) (hpos : 0 < len) :
    0 < (lengthOctets len).length := by
  apply List.length_pos_of_ne_nil
  intro hnil
  have hvalue := ofBe_lengthOctets h
  rw [hnil] at hvalue
  exact hpos.ne hvalue

theorem writeBerLength_short {len : Nat} (h : len < 128) :
    writeBerLength len = [UInt8.ofNat len] := by
  rw [writeBerLength, if_pos h]

theorem writeBerLength_long {len : Nat} (h : ¬ len < 128) :
    writeBerLength len =
      UInt8.ofNat (0x80 + (lengthOctets len).length) :: lengthOctets len := by
  rw [writeBerLength, if_neg h]
  rfl

theorem readBerLength_long {n : Nat} (hpos : 0 < n) (hle : n ≤ 8) (rest : Bytes) :
    readBerLength (UInt8.ofNat (0x80 + n) :: rest) =
      if rest.length < n then .error .truncated
      else .ok (Bytes.ofBe (rest.take n), rest.drop n) := by
  have hfirst : (UInt8.ofNat (0x80 + n)).toNat = 0x80 + n := by
    rw [UInt8.toNat_ofNat']
    omega
  have hcount : (0x80 + n) % 0x80 = n := by omega
  rw [readBerLength, hfirst, if_neg (by omega), hcount]
  by_cases hshort : rest.length < n
  · rw [if_pos (.inr (.inr hshort)), if_pos hshort]
  · rw [if_neg (by omega), if_neg hshort]

theorem readBerLength_writeBerLength {len : Nat} (h : len < 2 ^ 64) (rest : Bytes) :
    readBerLength (writeBerLength len ++ rest) = .ok (len, rest) := by
  by_cases hshort : len < 128
  · have hfirst : (UInt8.ofNat len).toNat = len := by
      rw [UInt8.toNat_ofNat']
      omega
    rw [writeBerLength_short hshort, List.singleton_append, readBerLength, hfirst, if_pos hshort]
  · have hpos := length_lengthOctets_pos h (by omega)
    rw [writeBerLength_long hshort, List.cons_append,
      readBerLength_long hpos (length_lengthOctets_le len), if_neg (by simp), List.take_left,
      List.drop_left, ofBe_lengthOctets h]

theorem readBerLength_cut {len : Nat} (h : len < 2 ^ 64) {p : Bytes}
    (hp : p <+: writeBerLength len) (hne : p ≠ writeBerLength len) :
    readBerLength p = .error .truncated := by
  cases p with
  | nil => rfl
  | cons first p =>
    by_cases hshort : len < 128
    · rw [writeBerLength_short hshort] at hp hne
      have hnil : p = [] := by simpa using (List.cons_prefix_cons.mp hp).2
      refine absurd ?_ hne
      rw [hnil, (List.cons_prefix_cons.mp hp).1]
    · rw [writeBerLength_long hshort] at hp hne
      obtain ⟨hfirst, hoctets⟩ := List.cons_prefix_cons.mp hp
      have hlt : p.length < (lengthOctets len).length := by
        apply lt_of_le_of_ne hoctets.length_le
        intro hlen
        rw [hfirst, hoctets.eq_of_length hlen] at hne
        exact hne rfl
      rw [hfirst, readBerLength_long (length_lengthOctets_pos h (by omega))
        (length_lengthOctets_le len), if_pos hlt]

end Lengths

theorem prefix_append_cases {α : Type} {p xs ys : List α} (h : p <+: xs ++ ys) :
    (p <+: xs ∧ p ≠ xs) ∨ ∃ q, p = xs ++ q ∧ q <+: ys := by
  by_cases hlen : p.length < xs.length
  · left
    refine ⟨List.prefix_of_prefix_length_le h (List.prefix_append xs ys) hlen.le, ?_⟩
    rintro rfl
    exact lt_irrefl _ hlen
  · right
    obtain ⟨q, rfl⟩ := List.prefix_of_prefix_length_le (List.prefix_append xs ys) h (by omega)
    exact ⟨q, rfl, (List.prefix_append_right_inj xs).mp h⟩

theorem parse_contextToken {inner : Bytes} (h : krb5MechOidDer.length + inner.length < 2 ^ 64)
    (rest : Bytes) :
    parseInitialContextToken (buildInitialContextToken inner ++ rest) = .ok inner := by
  have htake : (krb5MechOidDer ++ (inner ++ rest)).take (krb5MechOidDer.length + inner.length) =
      krb5MechOidDer ++ inner := by
    rw [← List.append_assoc, ← List.length_append, List.take_left]
  simp only [buildInitialContextToken, List.cons_append, List.append_assoc,
    parseInitialContextToken]
  rw [readBerLength_writeBerLength h, ok_bind]
  simp [ensure, htake]

theorem parse_cut_contextToken {inner : Bytes}
    (h : krb5MechOidDer.length + inner.length < 2 ^ 64) {p : Bytes}
    (hp : p <+: buildInitialContextToken inner) (hne : p ≠ buildInitialContextToken inner) :
    ∃ e, parseInitialContextToken p = .error e := by
  cases p with
  | nil => exact ⟨.empty, rfl⟩
  | cons tag p =>
    simp only [buildInitialContextToken, List.cons_append, List.append_assoc] at hp hne
    obtain ⟨rfl, htail⟩ := List.cons_prefix_cons.mp hp
    refine ⟨.truncated, ?_⟩
    rw [parseInitialContextToken]
    cases prefix_append_cases htail with
    | inl hcut =>
      rw [readBerLength_cut h hcut.1 hcut.2]
      rfl
    | inr hbody =>
      obtain ⟨q, rfl, hq⟩ := hbody
      have hlt : q.length < krb5MechOidDer.length + inner.length := by
        rw [← List.length_append]
        apply lt_of_le_of_ne hq.length_le
        intro hlen
        rw [hq.eq_of_length hlen] at hne
        exact hne rfl
      rw [readBerLength_writeBerLength h]
      simp only [ensure, ok_bind, if_true]
      rw [if_neg (by omega)]
      rfl

/-- The token built around an inner token is read back whatever follows it, and
no proper part of it from the start is accepted. -/
theorem contextToken_codec (inner : Slice) (rest : Bytes) :
    parseInitialContextToken (buildInitialContextToken inner ++ rest) = .ok inner.val ∧
      ∀ p, p <+: buildInitialContextToken inner → p ≠ buildInitialContextToken inner →
        ∃ e, parseInitialContextToken p = .error e := by
  have hfits : krb5MechOidDer.length + inner.val.length < 2 ^ 64 := by
    have hinner := inner.property
    have hoid : krb5MechOidDer.length = 11 := rfl
    omega
  exact ⟨parse_contextToken hfits rest, fun _ hp hne => parse_cut_contextToken hfits hp hne⟩

end IronDirectory.Ldap.Gssapi
