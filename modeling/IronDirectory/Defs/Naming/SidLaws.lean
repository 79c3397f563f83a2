import IronDirectory.Defs.Base.Octets
import IronDirectory.Defs.Base.TextLaws
import IronDirectory.Defs.Naming.Sid

namespace IronDirectory.Naming.Sid

open Base

section Text

theorem join_eq_flatMap (c : Char) (p : Str) (ps : List Str) :
    Str.join c (p :: ps) = p ++ ps.flatMap (fun q => c :: q) := by
  induction ps generalizing p with
  | nil => simp
  | cons q ps ih => rw [Str.join_cons_cons, ih, List.flatMap_cons, List.cons_append]

def fields (x : Sid) : List Str :=
  "S" :: Str.ofNat x.revision.toNat :: Str.ofNat x.authority.toNat ::
    x.subAuthorities.map fun sa => Str.ofNat sa.toNat

theorem display_eq_join (x : Sid) : x.display = Str.join '-' x.fields := by
  rw [fields, join_eq_flatMap, List.flatMap_cons, List.flatMap_cons, List.flatMap_map, display]
  simp [Str.ofString]

theorem not_mem_ofNat_dash (n : Nat) : '-' ∉ Str.ofNat n := by
  intro h
  exact absurd (Str.isDigit_of_mem_ofNat h) (by decide)

theorem splitOn_display (x : Sid) : x.display.splitOn '-' = x.fields := by
  rw [display_eq_join]
  apply List.splitOn_intercalate
  · intro p hp
    simp only [fields, List.mem_cons, List.mem_map] at hp
    rcases hp with rfl | rfl | rfl | ⟨sa, _, rfl⟩
    · decide
    · exact not_mem_ofNat_dash _
    · exact not_mem_ofNat_dash _
    · exact not_mem_ofNat_dash _
  · exact List.cons_ne_nil _ _

theorem mapM_unsigned_ofNat (sas : List UInt32) :
    (sas.map fun sa => Str.ofNat sa.toNat).mapM (Str.unsigned? (2 ^ 32)) =
      some (sas.map UInt32.toNat) := by
  induction sas with
  | nil => rfl
  | cons sa sas ih =>
    rw [List.map_cons, List.mapM_cons, Str.unsigned?_ofNat sa.toNat_lt, ih]
    rfl

theorem map_ofNat_toNat (sas : List UInt32) : (sas.map UInt32.toNat).map UInt32.ofNat = sas := by
  induction sas with
  | nil => rfl
  | cons sa sas ih => rw [List.map_cons, List.map_cons, UInt32.ofNat_toNat, ih]

theorem parse_display (x : Sid) : parse x.display = some x := by
  rw [parse, splitOn_display, fields]
  simp only [if_true, Str.unsigned?_ofNat x.revision.toNat_lt,
    Str.unsigned?_ofNat x.authority.toNat_lt, mapM_unsigned_ofNat, Option.bind_eq_bind,
    Option.bind_some, map_ofNat_toNat, UInt8.ofNat_toNat, UInt64.ofNat_toNat]

theorem lt_of_unsigned {bound n : Nat} {s : Str} (h : Str.unsigned? bound s = some n) :
    n < bound := by
  have hn := (Option.filter_eq_some_iff.mp h).2
  simpa using hn

theorem isSome_unsigned_iff {bound bound' n : Nat} {s : Str} (h : Str.unsigned? bound' s = some n) :
    (Str.unsigned? bound s).isSome = true ↔ n < bound := by
  have hn := (Option.filter_eq_some_iff.mp h).1
  change ((Str.nat? _).filter (· < bound)).isSome = true ↔ n < bound
  rw [hn]
  simp [Option.filter_some]

theorem length_of_mapM {α β : Type} {f : α → Option β} {xs : List α} {ys : List β}
    (h : xs.mapM f = some ys) : ys.length = xs.length := by
  induction xs generalizing ys with
  | nil =>
    cases h
    rfl
  | cons x xs ih =>
    rw [List.mapM_cons] at h
    simp only [Option.bind_eq_bind, Option.bind_eq_some_iff, Option.pure_def,
      Option.some.injEq] at h
    obtain ⟨y, _, zs, hzs, rfl⟩ := h
    rw [List.length_cons, List.length_cons, ih hzs]

theorem parse_eq_some {s : Str} {x : Sid} (h : parse s = some x) :
    ∃ revision authority subs, s.splitOn '-' = ("S" : Str) :: revision :: authority :: subs ∧
      Str.unsigned? (2 ^ 64) authority = some x.authority.toNat ∧
      x.subAuthorities.length = subs.length := by
  rw [parse] at h
  split at h
  · next tag revision authority subs hfields =>
    split at h
    · next htag =>
      simp only [Option.bind_eq_bind, Option.bind_eq_some_iff, Option.some.injEq] at h
      obtain ⟨r, _, a, ha, sas, hsas, rfl⟩ := h
      refine ⟨revision, authority, subs, by rw [hfields, htag], ?_, ?_⟩
      · rw [ha, UInt64.toNat_ofNat_of_lt' (lt_of_unsigned ha)]
      · rw [List.length_map, length_of_mapM hsas]
    · cases h
  · cases h

end Text

section Bytes

theorem length_encode (x : Sid) : x.encode.length = 8 + 4 * x.subAuthorities.length := by
  simp [Sid.encode, List.length_flatMap]
  omega

theorem decode_encode_iff (x : Sid) :
    decode x.encode = some x ↔ x.authority.toNat < 2 ^ 48 ∧ x.subAuthorities.length < 256 := by
  by_cases hcount : x.subAuthorities.length < 256
  · rw [decode_encode hcount, Option.some.injEq]
    constructor
    · intro h
      have hauthority := congrArg (UInt64.toNat ∘ authority) h
      simp only [Function.comp_apply, UInt64.toNat_ofNat'] at hauthority
      exact ⟨by omega, hcount⟩
    · intro h
      rw [Nat.mod_eq_of_lt (show x.authority.toNat < 256 ^ 6 from h.1), UInt64.ofNat_toNat]
  · simp only [hcount, and_false, iff_false]
    intro h
    have hlen : (x.subAuthorities.flatMap fun sa => Bytes.le 4 sa.toNat).length =
        4 * x.subAuthorities.length := by
      simp [List.length_flatMap, Nat.mul_comm]
    simp only [decode, encode, Bytes.be, Bytes.le, List.reverse_cons, List.reverse_nil,
      List.nil_append, List.cons_append, List.drop_succ_cons, List.drop_zero] at h
    split at h
    · next hfits =>
      rw [UInt8.toNat_ofNat'] at hfits
      simp only [Bytes.le] at hlen
      omega
    · cases h

theorem encode_decodeSubAuthorities {n : Nat} {rest : Bytes} (h : rest.length = 4 * n) :
    (decodeSubAuthorities rest).length = n ∧
      ((decodeSubAuthorities rest).flatMap fun sa => Bytes.le 4 sa.toNat) = rest := by
  induction n generalizing rest with
  | zero =>
    rw [List.eq_nil_of_length_eq_zero h]
    exact ⟨rfl, rfl⟩
  | succ n ih =>
    match rest, h with
    | a :: b :: c :: d :: rest, h =>
      have hrest := @ih rest (by simp only [List.length_cons] at h; omega)
      have hlt : Bytes.ofLe [a, b, c, d] < 256 ^ 4 := Bytes.ofLe_lt [a, b, c, d]
      have hword : Bytes.le 4 (UInt32.ofNat (Bytes.ofLe [a, b, c, d])).toNat = [a, b, c, d] := by
        rw [UInt32.toNat_ofNat_of_lt' (by omega)]
        exact Bytes.le_ofLe [a, b, c, d]
      rw [decodeSubAuthorities, List.length_cons, List.flatMap_cons, hword, hrest.1, hrest.2]
      exact ⟨rfl, rfl⟩

theorem encode_of_decode {b : Bytes} {y : Sid} (h : decode b = some y) : y.encode = b := by
  unfold decode at h
  split at h
  · next revision count a₀ a₁ a₂ a₃ a₄ a₅ rest =>
    split at h
    · next hlen =>
      cases h
      obtain ⟨hcount, hsubs⟩ := encode_decodeSubAuthorities hlen
      have hlt : Bytes.ofBe [a₀, a₁, a₂, a₃, a₄, a₅] < 256 ^ 6 :=
        Bytes.ofBe_lt [a₀, a₁, a₂, a₃, a₄, a₅]
      have hauthority : (Bytes.be 8 (Bytes.ofBe [a₀, a₁, a₂, a₃, a₄, a₅])).drop 2 =
          [a₀, a₁, a₂, a₃, a₄, a₅] := by
        exact Bytes.be_ofBe [a₀, a₁, a₂, a₃, a₄, a₅]
      rw [encode, UInt64.toNat_ofNat_of_lt' (hlt.trans (by decide)), hauthority, hcount, hsubs,
        UInt8.ofNat_toNat]
      rfl
    · cases h
  · cases h

end Bytes

/-- The text has no more fields than a count byte allows, and an authority of at
most six bytes. -/
def WireSized (s : Str) : Prop :=
  (s.splitOn '-').length ≤ 3 + 255 ∧
    ∃ authority, (s.splitOn '-')[2]? = some authority ∧
      (Str.unsigned? (2 ^ 48) authority).isSome = true

/-- An identifier accepted as text is read back from its own text, and from its
bytes exactly when it fits them; bytes that are accepted are written again. -/
theorem sid_survives_iff {s : Str} {x : Sid} (h : parse s = some x) {b : Bytes} {y : Sid}
    (hb : decode b = some y) :
    ((parse x.display = some x ∧ decode x.encode = some x) ∧ y.encode = b) ↔ WireSized s := by
  obtain ⟨revision, authority, subs, hfields, hauthority, hcount⟩ := parse_eq_some h
  have hsized : WireSized s ↔ x.authority.toNat < 2 ^ 48 ∧ x.subAuthorities.length < 256 := by
    rw [WireSized, hfields, hcount, ← isSome_unsigned_iff hauthority]
    simp only [List.length_cons, List.getElem?_cons_succ, List.getElem?_cons_zero,
      Option.some.injEq, exists_eq_left']
    exact ⟨fun h => ⟨h.2, by omega⟩, fun h => ⟨by omega, h.1⟩⟩
  rw [hsized, decode_encode_iff, parse_display, encode_of_decode hb]
  simp

theorem sid_survives_domain :
    (parse (Sid.display ⟨1, 5, [21, 7]⟩) = some ⟨1, 5, [21, 7]⟩ ∧
      decode (Sid.encode ⟨1, 5, [21, 7]⟩) = some ⟨1, 5, [21, 7]⟩) ∧
      Sid.encode ⟨1, 5, []⟩ = [1, 0, 0, 0, 0, 0, 0, 5] :=
  (sid_survives_iff (show parse "S-1-5-21-7" = some ⟨1, 5, [21, 7]⟩ from rfl)
    (show decode [1, 0, 0, 0, 0, 0, 0, 5] = some ⟨1, 5, []⟩ from rfl)).mpr
    ⟨by decide, _, rfl, rfl⟩

/-- An authority of seven bytes is accepted and loses its first byte. -/
theorem sid_authority_lost :
    parse "S-1-281474976710661-21" = some ⟨1, 281474976710661, [21]⟩ ∧
      decode (Sid.encode ⟨1, 281474976710661, [21]⟩) = some ⟨1, 5, [21]⟩ :=
  ⟨rfl, rfl⟩

end IronDirectory.Naming.Sid
