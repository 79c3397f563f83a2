import IronDirectory.Defs.Base.Reading
import IronDirectory.Defs.Base.Utf8Laws
import IronDirectory.Defs.Naming.SidLaws
import IronDirectory.Defs.Rpc.Ndr

namespace IronDirectory.Base.Str

theorem fromUtf16_unit {n : Nat} (h : n < 0xD800 ∨ 0xDFFF < n ∧ n < 0x10000) (us : List UInt16) :
    fromUtf16 (UInt16.ofNat n :: us) = (fromUtf16 us).map (Char.ofNat n :: ·) := by
  have hn : (UInt16.ofNat n).toNat = n := UInt16.toNat_ofNat'.trans (Nat.mod_eq_of_lt (by omega))
  have hplain : UInt16.ofNat n < 0xD800 ∨ 0xDFFF < UInt16.ofNat n := by
    rw [UInt16.lt_iff_toNat_lt, UInt16.lt_iff_toNat_lt, hn]
    simp only [UInt16.reduceToNat]
    omega
  rw [fromUtf16.eq_def]
  simp only [Bool.or_eq_true, decide_eq_true_eq, if_pos hplain, hn]

theorem fromUtf16_pair {hi lo : Nat} (hhi : hi < 0x400) (hlo : lo < 0x400) (us : List UInt16) :
    fromUtf16 (UInt16.ofNat (0xD800 + hi) :: UInt16.ofNat (0xDC00 + lo) :: us) =
      (fromUtf16 us).map (Char.ofNat (0x10000 + hi * 0x400 + lo) :: ·) := by
  have hh : (UInt16.ofNat (0xD800 + hi)).toNat = 0xD800 + hi :=
    UInt16.toNat_ofNat'.trans (Nat.mod_eq_of_lt (by omega))
  have hl : (UInt16.ofNat (0xDC00 + lo)).toNat = 0xDC00 + lo :=
    UInt16.toNat_ofNat'.trans (Nat.mod_eq_of_lt (by omega))
  have hnot : ¬ (UInt16.ofNat (0xD800 + hi) < 0xD800 ∨ 0xDFFF < UInt16.ofNat (0xD800 + hi)) := by
    rw [UInt16.lt_iff_toNat_lt, UInt16.lt_iff_toNat_lt, hh]
    simp only [UInt16.reduceToNat]
    omega
  have hhigh : UInt16.ofNat (0xD800 + hi) ≤ 0xDBFF := by
    rw [UInt16.le_iff_toNat_le, hh]
    simp only [UInt16.reduceToNat]
    omega
  have hlow : 0xDC00 ≤ UInt16.ofNat (0xDC00 + lo) ∧ UInt16.ofNat (0xDC00 + lo) ≤ 0xDFFF := by
    rw [UInt16.le_iff_toNat_le, UInt16.le_iff_toNat_le, hl]
    simp only [UInt16.reduceToNat]
    omega
  rw [fromUtf16.eq_def]
  simp only [Bool.or_eq_true, Bool.and_eq_true, decide_eq_true_eq, if_neg hnot, if_pos hhigh,
    if_pos hlow, hh, hl, Nat.add_sub_cancel_left]

theorem fromUtf16_encodeUtf16 (s : Str) : fromUtf16 s.encodeUtf16 = some s := by
  induction s with
  | nil => rfl
  | cons c s ih =>
    have hvalid : c.toNat < 0xD800 ∨ 0xDFFF < c.toNat ∧ c.toNat < 0x110000 := c.valid
    have hcons : encodeUtf16 (c :: s) = encodeUtf16 [c] ++ encodeUtf16 s := by
      simp [encodeUtf16]
    rw [hcons]
    by_cases hplane : c.toNat < 0x10000
    · have hunit : encodeUtf16 [c] = [UInt16.ofNat c.toNat] := by
        simp [encodeUtf16, hplane]
      rw [hunit, List.singleton_append, fromUtf16_unit (by omega), ih, Option.map_some,
        Char.ofNat_toNat]
    · have hpair : encodeUtf16 [c] = [UInt16.ofNat (0xD800 + (c.toNat - 0x10000) / 0x400),
          UInt16.ofNat (0xDC00 + (c.toNat - 0x10000) % 0x400)] := by
        simp [encodeUtf16, hplane]
      have hback : 0x10000 + (c.toNat - 0x10000) / 0x400 * 0x400 + (c.toNat - 0x10000) % 0x400 =
          c.toNat := by omega
      rw [hpair, List.cons_append, List.singleton_append, fromUtf16_pair (by omega) (by omega), ih,
        Option.map_some, hback, Char.ofNat_toNat]

end IronDirectory.Base.Str

namespace IronDirectory.Rpc

open Base Naming

def padding (align pos : Nat) : Nat := (align - pos % align) % align

theorem padding_add {align start : Nat} (h : start % align = 0) (n : Nat) :
    padding align (start + n) = padding align n := by
  rw [padding, padding, Nat.add_mod, h, Nat.zero_add, Nat.mod_mod]

theorem add_padding_mod (n : Nat) : (n + padding 4 n) % 4 = 0 := by
  unfold padding
  omega

namespace NdrRead

variable {α β : Type} {pre : Bytes}

def cursor (pre rest : Bytes) : NdrReader := ⟨pre ++ rest, pre.length⟩

abbrev Reads (read : NdrRead α) (pre enc : Bytes) (a : α) : Prop := Takes cursor read pre enc a

theorem reads_bytes (pre b : Bytes) : Reads (bytes b.length) pre b b := by
  intro post
  have hfits : ¬ pre.length + b.length > (pre ++ (b ++ post)).length := by
    simp only [List.length_append]
    omega
  have hneed : StateT.run (need b.length) (cursor pre (b ++ post)) =
      .ok ((), cursor pre (b ++ post)) := by
    change StateT.run (if pre.length + b.length > (pre ++ (b ++ post)).length then
      (throw (.truncated b.length _) : NdrRead Unit) else pure ()) _ = _
    rw [if_neg hfits]
    rfl
  have htake : ((pre ++ (b ++ post)).drop pre.length).take b.length = b := by
    rw [List.drop_left, List.take_left]
  have hnext : (⟨pre ++ (b ++ post), pre.length + b.length⟩ : NdrReader) =
      cursor (pre ++ b) post := by
    rw [cursor, List.append_assoc, List.length_append]
  rw [bytes, StateT.run_bind, hneed, Outcome.ok_bind]
  change Except.ok (((pre ++ (b ++ post)).drop pre.length).take b.length,
    (⟨pre ++ (b ++ post), pre.length + b.length⟩ : NdrReader)) = _
  rw [htake, hnext]

theorem reads_bytes_of_length {b : Bytes} {n : Nat} (h : b.length = n) (pre : Bytes) :
    Reads (bytes n) pre b b := by
  rw [← h]
  exact reads_bytes pre b

section Integers

theorem reads_u8 (pre : Bytes) (v : UInt8) : Reads u8 pre [v] v := by
  have hread := (reads_bytes pre [v]).map (g := fun b => UInt8.ofNat (Bytes.ofLe b))
  have hvalue : UInt8.ofNat (Bytes.ofLe [v]) = v := UInt8.ofNat_toNat
  rw [hvalue] at hread
  exact hread

theorem reads_u16 (pre : Bytes) (v : UInt16) : Reads u16 pre (Bytes.le 2 v.toNat) v := by
  have hread := (reads_bytes pre (Bytes.le 2 v.toNat)).map
    (g := fun b => UInt16.ofNat (Bytes.ofLe b))
  have hlt : v.toNat < 256 ^ 2 := v.toNat_lt
  rw [Bytes.ofLe_le, Nat.mod_eq_of_lt hlt, UInt16.ofNat_toNat] at hread
  exact hread

theorem reads_u32_bytes (pre : Bytes) {b : Bytes} (h : b.length = 4) :
    Reads u32 pre b (UInt32.ofNat (Bytes.ofLe b)) :=
  (reads_bytes_of_length h pre).map

theorem reads_u32 (pre : Bytes) (v : UInt32) : Reads u32 pre (Bytes.le 4 v.toNat) v := by
  have hread := reads_u32_bytes pre (Bytes.length_le 4 v.toNat)
  rw [Bytes.ofNat_ofLe_le] at hread
  exact hread

theorem reads_u64 (pre : Bytes) (v : UInt64) : Reads u64 pre (Bytes.le 8 v.toNat) v := by
  have hread := (reads_bytes pre (Bytes.le 8 v.toNat)).map
    (g := fun b => UInt64.ofNat (Bytes.ofLe b))
  have hlt : v.toNat < 256 ^ 8 := v.toNat_lt
  rw [Bytes.ofLe_le, Nat.mod_eq_of_lt hlt, UInt64.ofNat_toNat] at hread
  exact hread

end Integers

theorem reads_padTo4 (pre : Bytes) {b : Bytes} (h : b.length = padding 4 pre.length) :
    Reads padTo4 pre b () := by
  intro post
  have hlen : (pre ++ (b ++ post)).length = pre.length + (b.length + post.length) := by
    rw [List.length_append, List.length_append]
  have hpos : (if pre.length < (pre ++ (b ++ post)).length then
      min (pre.length + (4 - pre.length % 4) % 4) (pre ++ (b ++ post)).length else pre.length) =
        pre.length + b.length := by
    unfold padding at h
    split <;> omega
  have hnext : (⟨pre ++ (b ++ post), pre.length + b.length⟩ : NdrReader) =
      cursor (pre ++ b) post := by
    rw [cursor, List.append_assoc, List.length_append]
  change Except.ok ((), (⟨pre ++ (b ++ post), if pre.length < (pre ++ (b ++ post)).length then
    min (pre.length + (4 - pre.length % 4) % 4) (pre ++ (b ++ post)).length else pre.length⟩ :
      NdrReader)) = _
  rw [hpos, hnext]

end NdrRead

section Text

def unitBytes (us : List UInt16) : Bytes := us.flatMap fun u => Bytes.le 2 u.toNat

theorem length_unitBytes (us : List UInt16) : (unitBytes us).length = 2 * us.length := by
  simp [unitBytes, List.length_flatMap, Nat.mul_comm]

def wideBytes (s : Str) : Bytes :=
  Bytes.le 4 (UInt32.ofNat s.encodeUtf16.length).toNat ++ (Bytes.le 4 0 ++
    (Bytes.le 4 (UInt32.ofNat s.encodeUtf16.length).toNat ++ unitBytes s.encodeUtf16))

theorem length_wideBytes (s : Str) : (wideBytes s).length = 12 + 2 * s.encodeUtf16.length := by
  simp only [wideBytes, List.length_append, Bytes.length_le, length_unitBytes]
  omega

namespace NdrRead

theorem reads_units (pre : Bytes) (us : List UInt16) :
    Reads (units us.length) pre (unitBytes us) us := by
  induction us generalizing pre with
  | nil => exact .pure pre []
  | cons u us ih => exact (reads_u16 pre u).bind (ih _).map

theorem reads_wide (pre : Bytes) {us : List UInt16} {s : Str} (h : us.length < 2 ^ 32)
    (hs : Str.fromUtf16 us = some s) :
    Reads unicodeStringDeferred pre (Bytes.le 4 (UInt32.ofNat us.length).toNat ++
      (Bytes.le 4 0 ++ (Bytes.le 4 (UInt32.ofNat us.length).toNat ++ unitBytes us))) s := by
  have hcount : (UInt32.ofNat us.length).toNat = us.length :=
    UInt32.toNat_ofNat'.trans (Nat.mod_eq_of_lt h)
  have hnot : ¬ UInt32.ofNat us.length > UInt32.ofNat us.length := UInt32.lt_irrefl _
  refine (reads_u32 pre _).bind ((reads_u32 _ 0).bind ((reads_u32 _ _).bind ?_))
  simp only [if_neg hnot, hcount]
  rw [← List.append_nil (unitBytes us)]
  refine (reads_units _ us).bind ?_
  simp only [hs]
  exact .pure _ s

theorem reads_unicodeStringDeferred (pre : Bytes) {s : Str} (h : s.encodeUtf16.length < 2 ^ 32) :
    Reads unicodeStringDeferred pre (wideBytes s) s :=
  reads_wide pre h (Str.fromUtf16_encodeUtf16 s)

end NdrRead

end Text

section Identifiers

def sidBytes (sid : Sid) : Bytes :=
  Bytes.le 4 (UInt32.ofNat sid.subAuthorities.length).toNat ++ sid.encode

theorem length_sidBytes (sid : Sid) :
    (sidBytes sid).length = 12 + 4 * sid.subAuthorities.length := by
  rw [sidBytes, List.length_append, Bytes.length_le, Sid.length_encode]
  omega

theorem NdrRead.reads_sidDeferred (pre : Bytes) {sid : Sid}
    (h : sid.authority.toNat < 2 ^ 48 ∧ sid.subAuthorities.length < 256) :
    Reads sidDeferred pre (sidBytes sid) sid := by
  have hcount : (UInt32.ofNat sid.subAuthorities.length).toNat = sid.subAuthorities.length :=
    UInt32.toNat_ofNat'.trans (Nat.mod_eq_of_lt (by omega))
  refine (reads_u32 pre _).bind ?_
  simp only [hcount]
  rw [← List.append_nil sid.encode]
  refine (reads_bytes_of_length (Sid.length_encode sid) _).bind ?_
  simp only [(Sid.decode_encode_iff sid).mpr h]
  exact .pure _ sid

end Identifiers

section Headers

def headerBytes (referent : UInt32) (s : Str) : Bytes :=
  let length := UInt16.ofNat (s.encodeUtf16.length * 2)
  Bytes.le 2 length.toNat ++ (Bytes.le 2 length.toNat ++
    Bytes.le 4 (if s = [] then 0 else referent).toNat)

theorem NdrRead.reads_unicodeStringHeader (pre : Bytes) (referent : UInt32) (s : Str) :
    Reads unicodeStringHeader pre (headerBytes referent s)
      (UInt16.ofNat (s.encodeUtf16.length * 2), if s = [] then 0 else referent) :=
  (reads_u16 pre _).bind ((reads_u16 _ _).bind (reads_u32 _ _).map)

end Headers

namespace NdrRead

variable {α : Type} {read : NdrRead α} {enc : Bytes} {a : α}

theorem run_eq_of_reads (h : Reads read [] enc a) :
    StateT.run read ⟨enc, 0⟩ = .ok (a, ⟨enc, enc.length⟩) := by
  have hread := h []
  rw [List.append_nil, List.nil_append] at hread
  change StateT.run read ⟨enc, 0⟩ = .ok (a, ⟨enc ++ [], enc.length⟩) at hread
  rw [List.append_nil] at hread
  exact hread

theorem run'_eq_of_reads (h : Reads read [] enc a) (post : Bytes) :
    StateT.run' read ⟨enc ++ post, 0⟩ = .ok a := by
  have hread := h post
  change StateT.run read ⟨enc ++ post, 0⟩ = _ at hread
  change Prod.fst <$> StateT.run read ⟨enc ++ post, 0⟩ = .ok a
  rw [hread]
  rfl

theorem run_of_reads (h : Reads read [] enc a) (post : Bytes) : run read (enc ++ post) = some a := by
  rw [run, run'_eq_of_reads h post]
  rfl

section Spending

def left (r : NdrReader) : Nat := r.buf.length - r.pos

theorem spends_bytes (n : Nat) : Spends left (bytes n) fun k b => k = n ∧ b.length = n := by
  intro s t b hrun
  rw [bytes, StateT.run_bind] at hrun
  obtain ⟨⟨_, s'⟩, hneed, hrest⟩ := Outcome.bind_eq_ok.mp hrun
  change StateT.run (if s.pos + n > s.buf.length then
    (throw (.truncated n (s.buf.length - s.pos)) : NdrRead Unit) else pure ()) s = _ at hneed
  split at hneed
  case isTrue => cases hneed
  case isFalse hfits =>
    cases hneed
    cases hrest
    refine ⟨n, ?_, rfl, ?_⟩
    · simp only [left]
      omega
    · rw [List.length_take, List.length_drop]
      exact Nat.min_eq_left (show n ≤ s.buf.length - s.pos by omega)

theorem spends_u16 : Spends left u16 fun k _ => k = 2 :=
  (spends_bytes 2).bind fun _ _ h => .pure h.1

theorem spends_u32 : Spends left u32 fun k _ => k = 4 :=
  (spends_bytes 4).bind fun _ _ h => .pure h.1

theorem spends_handle : Spends left handle fun k _ => k = 20 :=
  (spends_bytes 20).mono fun _ _ h => h.1

theorem spends_padTo4 : Spends left padTo4 fun _ _ => True := by
  intro s t _ hrun
  cases hrun
  simp only [left, and_true]
  split
  · exact ⟨min (s.pos + (4 - s.pos % 4) % 4) s.buf.length - s.pos, by omega⟩
  · exact ⟨0, rfl⟩

theorem spends_unicodeStringHeader : Spends left unicodeStringHeader fun k _ => k = 8 :=
  spends_u16.bind fun _ _ h₁ => spends_u16.bind fun _ _ h₂ => spends_u32.bind fun _ _ h₃ =>
    .pure (by omega)

theorem spends_units (n : Nat) : Spends left (units n) fun _ _ => True := by
  induction n with
  | zero => exact .pure trivial
  | succ n ih => exact spends_u16.bind fun _ _ _ => ih.bind fun _ _ _ => .pure trivial

theorem spends_unicodeStringDeferred : Spends left unicodeStringDeferred fun _ _ => True := by
  refine spends_u32.bind fun _ maxCount _ => spends_u32.bind fun _ _ _ =>
    spends_u32.bind fun _ actualCount _ => (spends_units _).bind fun _ us _ => ?_
  dsimp only
  split
  · refine (spends_bytes _).bind fun _ _ _ => ?_
    cases Str.fromUtf16 us with
    | some s => exact .pure trivial
    | none => exact .throw _
  · cases Str.fromUtf16 us with
    | some s => exact .pure trivial
    | none => exact .throw _

theorem exists_of_run {Q : Nat → α → Prop} {stub : Bytes} (h : Spends left read Q)
    (hrun : run read stub = some a) : ∃ k ≤ stub.length, Q k a := by
  rw [run, Outcome.toOption_eq_some] at hrun
  change Prod.fst <$> StateT.run read ⟨stub, 0⟩ = .ok a at hrun
  obtain ⟨⟨a', t⟩, hread, rfl⟩ := Outcome.map_eq_ok.mp hrun
  obtain ⟨k, hk, hQ⟩ := h hread
  have hstart : left ⟨stub, 0⟩ = stub.length := rfl
  exact ⟨k, by omega, hQ⟩

end Spending

end NdrRead

namespace NdrWriter

variable (w : NdrWriter)

@[simp] theorem buf_new : new.buf = [] := rfl

@[simp] theorem buf_bytes (b : Bytes) : (w.bytes b).buf = w.buf ++ b := rfl

@[simp] theorem buf_u8 (v : UInt8) : (w.u8 v).buf = w.buf ++ [v] := rfl

@[simp] theorem buf_u16 (v : UInt16) : (w.u16 v).buf = w.buf ++ Bytes.le 2 v.toNat := rfl

@[simp] theorem buf_u32 (v : UInt32) : (w.u32 v).buf = w.buf ++ Bytes.le 4 v.toNat := rfl

@[simp] theorem buf_u64 (v : UInt64) : (w.u64 v).buf = w.buf ++ Bytes.le 8 v.toNat := rfl

@[simp] theorem buf_handle (h : Bytes) : (w.handle h).buf = w.buf ++ h := rfl

@[simp] theorem buf_nullPtr : w.nullPtr.buf = w.buf ++ Bytes.le 4 0 := rfl

@[simp] theorem buf_referentId :
    w.referentId.buf = w.buf ++ Bytes.le 4 w.nextReferentId.toNat := rfl

@[simp] theorem buf_padTo4 :
    w.padTo4.buf = w.buf ++ List.replicate (padding 4 w.buf.length) 0 := rfl

@[simp] theorem buf_sidDeferred (sid : Sid) : (w.sidDeferred sid).buf = w.buf ++ sidBytes sid := by
  rw [sidDeferred, buf_bytes, buf_u32, List.append_assoc]
  rfl

theorem length_foldl_u32 (vs : List UInt32) :
    (vs.foldl .u32 w).buf.length = w.buf.length + 4 * vs.length := by
  induction vs generalizing w with
  | nil => rfl
  | cons v vs ih =>
    rw [List.foldl_cons, ih, buf_u32, List.length_append, Bytes.length_le, List.length_cons]
    omega

theorem foldl_u16 (us : List UInt16) :
    us.foldl .u16 w = { w with buf := w.buf ++ unitBytes us } := by
  induction us generalizing w with
  | nil => rw [List.foldl_nil, unitBytes, List.flatMap_nil, List.append_nil]
  | cons u us ih =>
    rw [List.foldl_cons, ih, buf_u16, List.append_assoc]
    rfl

theorem embeddedWstr_eq (s : Str) :
    w.embeddedWstr s = { w with buf := w.buf ++ wideBytes s } := by
  rw [embeddedWstr, foldl_u16]
  simp only [buf_u32, List.append_assoc]
  rfl

@[simp] theorem buf_embeddedWstr (s : Str) : (w.embeddedWstr s).buf = w.buf ++ wideBytes s := by
  rw [embeddedWstr_eq]

theorem buf_unicodeStringHeader (s : Str) :
    (w.unicodeStringHeader s).buf = w.buf ++ headerBytes w.nextReferentId s := by
  unfold unicodeStringHeader headerBytes
  split
  · next h =>
    subst h
    simp only [buf_nullPtr, buf_u16, List.append_assoc]
    rfl
  · next h =>
    simp only [buf_referentId, buf_u16, List.append_assoc]
    rfl

theorem nextReferentId_unicodeStringHeader (s : Str) : (w.unicodeStringHeader s).nextReferentId =
    if s = [] then w.nextReferentId else w.nextReferentId + 4 := by
  unfold unicodeStringHeader
  split
  · rfl
  · rfl

def deferredBytes (start : Nat) (s : Str) : Bytes :=
  if s = [] then []
  else wideBytes s ++ List.replicate (padding 4 (start + (wideBytes s).length)) 0

theorem unicodeStringDeferred_eq (s : Str) : w.unicodeStringDeferred s =
    { w with buf := w.buf ++ deferredBytes w.buf.length s } := by
  unfold unicodeStringDeferred deferredBytes
  split
  · rw [List.append_nil]
  · rw [padTo4, embeddedWstr_eq, bytes, List.append_assoc, ← List.length_append]
    rfl

theorem length_unicodeStringDeferred_le (s : Str) : (w.unicodeStringDeferred s).buf.length ≤
    w.buf.length + (15 + 2 * s.encodeUtf16.length) := by
  rw [unicodeStringDeferred_eq, List.length_append]
  refine Nat.add_le_add_left ?_ _
  unfold deferredBytes
  split
  · exact Nat.zero_le _
  · rw [List.length_append, List.length_replicate, length_wideBytes, padding]
    omega

end NdrWriter

end IronDirectory.Rpc
