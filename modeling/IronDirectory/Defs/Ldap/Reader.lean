import IronDirectory.Defs.Base.Octets
import IronDirectory.Defs.Base.Packets
import IronDirectory.Defs.Ldap.Framing

namespace IronDirectory.Ldap.Framing

open Base
open Kdc (Fault)

abbrev Reader := Packets.Source UInt8 Str

section

variable {M : Type} (checked : Bool) (decode : Bytes → Except Str M)

def cutMessage (buf : Bytes) : Except (Fault FramingError) (Option (M × Nat)) :=
  match berMessageLen checked buf with
  | .error e => .error e
  | .ok none => .ok none
  | .ok (some total) =>
    if total.toNat ≤ buf.length then
      match decode (buf.take total.toNat) with
      | .error e => .error (.error (.decode e))
      | .ok msg => .ok (some (msg, total.toNat))
    else .ok none

def readMessage : Reader → Except (Fault FramingError) (Option M) × Reader :=
  Packets.Source.next (cutMessage checked decode) (.error .unexpectedEof) fun e => .error (.io e)

end

def cutSizedBuffer (buf : Bytes) : Except (Fault FramingError) (Option (Bytes × Nat)) :=
  if 4 ≤ buf.length then
    let len := Bytes.ofBe (buf.take 4)
    if 4 + len ≤ buf.length then .ok (some ((buf.drop 4).take len, 4 + len)) else .ok none
  else .ok none

def readSizedBuffer : Reader → Except (Fault FramingError) (Option Bytes) × Reader :=
  Packets.Source.next cutSizedBuffer (.error .unexpectedEof) fun e => .error (.io e)

def writeSizedBuffer (payload : Bytes) : Bytes := Bytes.be 4 payload.length ++ payload

section Stability

theorem berMessageLen_append (checked : Bool) {buf : Bytes} (h : berMessageLen checked buf ≠ .ok none)
    (more : Bytes) : berMessageLen checked (buf ++ more) = berMessageLen checked buf := by
  match buf with
  | [] => exact absurd rfl h
  | [tag] =>
    simp only [berMessageLen, List.singleton_append] at h ⊢
    split
    · rfl
    · next htag =>
      rw [if_neg htag] at h
      exact absurd rfl h
  | tag :: first :: body =>
    simp only [berMessageLen, List.cons_append] at h ⊢
    split
    · rfl
    · next htag =>
      rw [if_neg htag] at h
      split
      · rfl
      · next hlong =>
        rw [if_neg hlong] at h
        split
        · rfl
        · next hdefinite =>
          rw [if_neg hdefinite] at h
          by_cases hshort : body.length < (first &&& 0x7f).toNat
          · rw [if_pos hshort] at h
            exact absurd rfl h
          · have hmore : ¬ (body ++ more).length < (first &&& 0x7f).toNat := by
              rw [List.length_append]
              omega
            rw [if_neg hmore, if_neg hshort, List.take_append_of_le_length (by omega)]

theorem stable_cutMessage {M : Type} (checked : Bool) (decode : Bytes → Except Str M) :
    Packets.Stable (cutMessage checked decode) := by
  -- either way the header has settled and the same bytes are decoded
  have hmore : ∀ {b} x, cutMessage checked decode b ≠ .ok none →
      cutMessage checked decode (b ++ x) = cutMessage checked decode b := by
    intro b x h
    have hlen : berMessageLen checked b ≠ .ok none := by
      intro hnone
      rw [cutMessage, hnone] at h
      exact h rfl
    rw [cutMessage, berMessageLen_append checked hlen]
    rw [cutMessage] at h ⊢
    split
    · rfl
    · rfl
    · next total htotal =>
      rw [htotal] at h
      by_cases hfits : total.toNat ≤ b.length
      · have hfits' : total.toNat ≤ (b ++ x).length := by
          rw [List.length_append]
          omega
        rw [if_pos hfits, if_pos hfits', List.take_append_of_le_length hfits]
      · simp only [if_neg hfits] at h
        exact absurd rfl h
  constructor
  · intro b e h x
    rw [hmore x (by rw [h]; nofun), h]
  · intro b f n h
    constructor
    · rw [cutMessage] at h
      split at h
      · cases h
      · cases h
      · split at h
        · split at h
          · cases h
          · cases h
            assumption
        · cases h
    · intro x
      rw [hmore x (by rw [h]; nofun), h]

theorem cutSizedBuffer_eq_some {buf payload : Bytes} {n : Nat} :
    cutSizedBuffer buf = .ok (some (payload, n)) ↔
      4 ≤ buf.length ∧ n ≤ buf.length ∧ n = 4 + Bytes.ofBe (buf.take 4) ∧
        payload = (buf.drop 4).take (Bytes.ofBe (buf.take 4)) := by
  constructor
  · intro h
    simp only [cutSizedBuffer] at h
    split at h
    · next hheader =>
      split at h
      · next hfits =>
        cases h
        exact ⟨hheader, hfits, rfl, rfl⟩
      · cases h
    · cases h
  · rintro ⟨hheader, hfits, rfl, rfl⟩
    simp only [cutSizedBuffer, if_pos hheader, if_pos hfits]

theorem stable_cutSizedBuffer : Packets.Stable cutSizedBuffer := by
  constructor
  · intro b e h
    simp only [cutSizedBuffer] at h
    split at h
    · split at h <;> cases h
    · cases h
  · intro b payload n h
    obtain ⟨hheader, hfits, hn, hpayload⟩ := cutSizedBuffer_eq_some.mp h
    refine ⟨hfits, fun x => ?_⟩
    have htake : (b ++ x).take 4 = b.take 4 := List.take_append_of_le_length hheader
    have hdrop : (b ++ x).drop 4 = b.drop 4 ++ x := List.drop_append_of_le_length hheader
    apply cutSizedBuffer_eq_some.mpr
    rw [htake, hdrop, List.length_append]
    refine ⟨by omega, by omega, hn, ?_⟩
    rw [hpayload, List.take_append_of_le_length]
    rw [List.length_drop]
    omega

end Stability

section Connection

def forget : Except (Fault FramingError) (Option Bytes) × Reader → Except Unit (Option (Bytes × Bytes))
  | (.error _, _) => .error ()
  | (.ok none, _) => .ok none
  | (.ok (some frame), src) => .ok (some (frame, src.buf))

def forgetCut (buf : Bytes) :
    Except (Fault FramingError) (Option (Bytes × Nat)) → Except Unit (Option (Bytes × Bytes))
  | .error _ => .error ()
  | .ok none => .ok none
  | .ok (some (frame, n)) => .ok (some (frame, buf.drop n))

def toRead : Option Bytes → Except Str Bytes
  | none => .error []
  | some chunk => .ok chunk

theorem forget_atEnd (buf : Bytes) (reads : List (Except Str Bytes)) :
    forget (Packets.atEnd (.error .unexpectedEof) buf, ⟨buf, reads⟩) =
      if buf = [] then .ok none else .error () := by
  cases buf <;> rfl

theorem readFramed_eq_next {split : Bytes → Except Unit (Option (Bytes × Bytes))}
    {cut : Packets.Cutter UInt8 Bytes (Fault FramingError)}
    (h : ∀ buf, split buf = forgetCut buf (cut buf)) (chunks : List (Option Bytes)) (buf : Bytes) :
    readFramed split buf chunks =
      forget (Packets.next cut (.error .unexpectedEof) (fun e => .error (.io e)) buf
        (chunks.map toRead)) := by
  induction chunks generalizing buf with
  | nil =>
    rw [readFramed, h, List.map_nil, Packets.next]
    cases cut buf with
    | error e => rfl
    | ok found =>
      cases found with
      | none => exact (forget_atEnd buf []).symm
      | some found => rfl
  | cons chunk chunks ih =>
    rw [readFramed.eq_def, h, List.map_cons, Packets.next.eq_def]
    cases cut buf with
    | error e => rfl
    | ok found =>
      cases found with
      | none =>
        cases chunk with
        | none => rfl
        | some chunk =>
          cases chunk with
          | nil => exact (forget_atEnd buf _).symm
          | cons b bs => exact ih (buf ++ b :: bs)
      | some found => rfl

theorem readFramed_splitSized (buf : Bytes) (chunks : List (Option Bytes)) :
    readFramed splitSized buf chunks = forget (readSizedBuffer ⟨buf, chunks.map toRead⟩) := by
  apply readFramed_eq_next
  intro buf
  simp only [splitSized, cutSizedBuffer]
  by_cases hheader : 4 ≤ buf.length
  · simp only [hheader, true_and, if_true]
    split <;> rfl
  · simp only [hheader, false_and, if_false]
    rfl

theorem readFramed_splitMessage (buf : Bytes) (chunks : List (Option Bytes)) :
    readFramed splitMessage buf chunks =
      forget (readMessage false .ok ⟨buf, chunks.map toRead⟩) := by
  apply readFramed_eq_next
  intro buf
  rw [splitMessage, ← berMessageLen_unchecked, cutMessage]
  cases berMessageLen false buf with
  | error e => rfl
  | ok found =>
    cases found with
    | none => rfl
    | some total =>
      simp only [Except.mapError, Except.map, Option.map_some]
      split <;> rfl

end Connection

theorem cutSizedBuffer_write {payload : Bytes} (h : payload.length < 2 ^ 32) (rest : Bytes) :
    cutSizedBuffer (writeSizedBuffer payload ++ rest) =
      .ok (some (payload, (writeSizedBuffer payload).length)) := by
  have hlen : Bytes.ofBe (Bytes.be 4 payload.length) = payload.length := Bytes.ofBe_be_of_lt h
  have htake : (writeSizedBuffer payload ++ rest).take 4 = Bytes.be 4 payload.length := rfl
  have hdrop : (writeSizedBuffer payload ++ rest).drop 4 = payload ++ rest := rfl
  have hsize : (writeSizedBuffer payload).length = 4 + payload.length := by
    rw [writeSizedBuffer, List.length_append, Bytes.length_be]
  apply cutSizedBuffer_eq_some.mpr
  rw [htake, hdrop, hlen, hsize, List.length_append, hsize]
  exact ⟨by omega, by omega, rfl, (List.take_left).symm⟩

structure Splitting (stream : Bytes) where
  chunks : List Bytes
  flatten_eq : chunks.flatten = stream
  nonempty : ∀ c ∈ chunks, c ≠ []

/-- The stream in these pieces, and then the end of it (`[]`), or a read that
fails and whatever comes after. -/
def Splitting.reader {stream : Bytes} (s : Splitting stream) (ending : List (Except Str Bytes)) :
    Reader :=
  ⟨[], s.chunks.map .ok ++ ending⟩

theorem Splitting.settled_reader {stream : Bytes} (s : Splitting stream)
    (ending : List (Except Str Bytes)) :
    (s.reader ending).settled = (⟨stream, ending⟩ : Reader).settled := by
  rw [Packets.Source.settled, Packets.Source.settled, reader, Packets.leading_ok s.nonempty,
    s.flatten_eq, List.nil_append]

abbrev Payload := { payload : Bytes // payload.length < 2 ^ 32 }

/-- What messages or buffers are read, where and how reading ends, and which
bytes are left never depend on the pieces a stream comes in; and buffers that
were written are read back in order. -/
theorem framing_independent_of_packets {M : Type} (checked : Bool)
    (decode : Bytes → Except Str M) (stream : Bytes) (p q : Splitting stream)
    (ending : List (Except Str Bytes)) (n : Nat) :
    ((calls (readMessage checked decode) n (p.reader ending)).1 =
        (calls (readMessage checked decode) n (q.reader ending)).1 ∧
      (calls (readMessage checked decode) n (p.reader ending)).2.pending =
        (calls (readMessage checked decode) n (q.reader ending)).2.pending) ∧
    ((calls readSizedBuffer n (p.reader ending)).1 =
        (calls readSizedBuffer n (q.reader ending)).1 ∧
      (calls readSizedBuffer n (p.reader ending)).2.pending =
        (calls readSizedBuffer n (q.reader ending)).2.pending) ∧
    ∀ (payloads : List Payload)
      (s : Splitting (payloads.flatMap fun payload => writeSizedBuffer payload.val)),
      (calls readSizedBuffer (payloads.length + 1) (s.reader [])).1 =
          payloads.map (fun payload => .ok (some payload.val)) ++ [.ok none] ∧
        (calls readSizedBuffer (payloads.length + 1) (s.reader [])).2.pending = [] := by
  have hsame : (p.reader ending).settled = (q.reader ending).settled :=
    (p.settled_reader ending).trans (q.settled_reader ending).symm
  have hmessages := Packets.calls_next_eq (.error .unexpectedEof) (fun e => .error (.io e))
    (stable_cutMessage checked decode) n hsame
  have hbuffers := Packets.calls_next_eq (.error .unexpectedEof) (fun e => .error (.io e))
    stable_cutSizedBuffer n hsame
  refine ⟨⟨hmessages.1, Packets.Source.pending_eq_of_settled hmessages.2⟩,
    ⟨hbuffers.1, Packets.Source.pending_eq_of_settled hbuffers.2⟩, fun payloads s => ?_⟩
  have hwhole := Packets.calls_next_eq (.error .unexpectedEof) (fun e => .error (.io e))
    stable_cutSizedBuffer (payloads.length + 1) (s.settled_reader [])
  rw [Packets.calls_next_flatMap _ _
    (fun (payload : Payload) (_ : payload ∈ payloads) => cutSizedBuffer_write payload.property)
    rfl] at hwhole
  exact ⟨hwhole.1, Packets.Source.pending_eq_of_settled hwhole.2⟩

end IronDirectory.Ldap.Framing
