import IronDirectory.Defs.Base.Octets
import IronDirectory.Defs.Base.Reading
import IronDirectory.Defs.Base.Utf8Laws
import IronDirectory.Defs.Kdc.Principal

namespace IronDirectory.Kdc

open Base Crypto

structure KeytabEntry where
  realm : Str
  components : List Str
  nameType : Int32
  timestamp : UInt32
  kvno : UInt32
  enctype : Enctype
  key : Bytes
  deriving DecidableEq

inductive KeytabError
  | unexpectedEof
  | badMagic
  | unsupportedVersion (version : UInt8)
  | unsupportedEnctype (etype : Int32)
  deriving DecidableEq

def KeytabError.display : KeytabError → Str
  | .unexpectedEof => "I/O error: failed to fill whole buffer"
  | .badMagic => "not a keytab file (bad magic)"
  | .unsupportedVersion version => "unsupported keytab format version " ++ Str.ofNat version.toNat ++
    " (only version 2 is written/read)"
  | .unsupportedEnctype etype => "unsupported enctype " ++ Str.ofInt etype.toInt

namespace Keytab

section Write

def writeCountedString (s : Bytes) : Bytes := Bytes.be 2 s.length ++ s

def encodeEntryBody (entry : KeytabEntry) : Bytes :=
  Bytes.be 2 entry.components.length ++ (writeCountedString entry.realm.toUtf8 ++
  (entry.components.flatMap (fun c => writeCountedString c.toUtf8) ++
  (Bytes.be 4 entry.nameType.toUInt32.toNat ++ (Bytes.be 4 entry.timestamp.toNat ++
  (Bytes.be 1 entry.kvno.toNat ++ (Bytes.be 2 entry.enctype.etypeNumber.toUInt32.toNat ++
  (writeCountedString entry.key ++ Bytes.be 4 entry.kvno.toNat)))))))

def write (entries : List KeytabEntry) : Bytes :=
  [0x05, 0x02] ++ entries.flatMap fun entry =>
    Bytes.be 4 (encodeEntryBody entry).length ++ encodeEntryBody entry

end Write

section Read

abbrev Slice := StateT Bytes (Except (Fault KeytabError))

def readExact (n : Nat) : Slice Bytes := fun rest =>
  if n ≤ rest.length then .ok (rest.take n, rest.drop n) else .error (.error .unexpectedEof)

def readCountedString : Slice Bytes := do
  let len ← readExact 2
  readExact (Bytes.ofBe len)

def readComponents : Nat → Slice (List Str)
  | 0 => return []
  | n + 1 => do
    let c ← readCountedString
    let cs ← readComponents n
    return Utf8.fromUtf8Lossy c :: cs

def readEnctype : Slice Enctype := do
  let etypeNum := Int32.ofNat (Bytes.ofBe (← readExact 2))
  match Enctype.ofNumber etypeNum with
  | some enctype => return enctype
  | none => throw (.error (.unsupportedEnctype etypeNum))

def readKvno (vno8 : Bytes) : Slice UInt32 := do
  if 4 ≤ (← get).length then
    return UInt32.ofNat (Bytes.ofBe (← readExact 4))
  else
    return UInt32.ofNat (Bytes.ofBe vno8)

def decodeEntry : Slice KeytabEntry := do
  let numComponents ← readExact 2
  let realm ← readCountedString
  let components ← readComponents (Bytes.ofBe numComponents)
  let nameType ← readExact 4
  let timestamp ← readExact 4
  let vno8 ← readExact 1
  let enctype ← readEnctype
  let key ← readCountedString
  let kvno ← readKvno vno8
  return ⟨Utf8.fromUtf8Lossy realm, components, (UInt32.ofNat (Bytes.ofBe nameType)).toInt32,
    UInt32.ofNat (Bytes.ofBe timestamp), kvno, enctype, key⟩

def decodeEntryBody (body : Bytes) : Except (Fault KeytabError) KeytabEntry :=
  decodeEntry.run' body

def readRecord (len : Int32) (rest : Bytes) :
    Except (Fault KeytabError) (Option KeytabEntry × Bytes) :=
  if len < 0 then
    -- The least length has no absolute value.
    if len = Int32.minValue then .error .panic
    else do
      let (_, rest) ← readExact (-len.toInt).toNat rest
      return (none, rest)
  else do
    let (body, rest) ← readExact len.toInt.toNat rest
    let entry ← decodeEntryBody body
    return (some entry, rest)

theorem length_of_readExact {n : Nat} {rest b rest' : Bytes}
    (h : readExact n rest = .ok (b, rest')) : rest'.length + n = rest.length := by
  unfold readExact at h
  split at h
  case isFalse => cases h
  case isTrue hn =>
    cases h
    rw [List.length_drop]
    omega

theorem length_of_readRecord {len : Int32} {rest rest' : Bytes} {record : Option KeytabEntry}
    (h : readRecord len rest = .ok (record, rest')) : rest'.length ≤ rest.length := by
  unfold readRecord at h
  split_ifs at h with hneg hmin
  · obtain ⟨⟨b, rest₁⟩, hread, hrest⟩ := Outcome.bind_eq_ok.mp h
    have := length_of_readExact hread
    cases hrest
    omega
  · obtain ⟨⟨b, rest₁⟩, hread, hrest⟩ := Outcome.bind_eq_ok.mp h
    obtain ⟨entry, hentry, hrest⟩ := Outcome.bind_eq_ok.mp hrest
    have := length_of_readExact hread
    cases hrest
    omega

def readRecords (rest : Bytes) (entries : List KeytabEntry) :
    Except (Fault KeytabError) (List KeytabEntry) :=
  match _ : readExact 4 rest with
  | .error _ => .ok entries
  | .ok (len, rest₁) =>
    match _ : readRecord (UInt32.ofNat (Bytes.ofBe len)).toInt32 rest₁ with
    | .error e => .error e
    | .ok (record, rest₂) => readRecords rest₂ (entries ++ record.toList)
termination_by rest.length
decreasing_by
  have := length_of_readExact ‹readExact 4 rest = .ok (len, rest₁)›
  have := length_of_readRecord ‹readRecord _ rest₁ = .ok (record, rest₂)›
  omega

def read (file : Bytes) : Except (Fault KeytabError) (List KeytabEntry) := do
  let (magic, rest) ← readExact 2 file
  if magic[0]? ≠ some 0x05 then throw (.error .badMagic)
  if magic[1]? ≠ some 0x02 then throw (.error (.unsupportedVersion (magic[1]?.getD 0)))
  readRecords rest []

end Read

section Entries

variable {α : Type}

def Reads (read : Slice α) (pre enc : Bytes) (a : α) : Prop :=
  Takes (fun _ rest => rest) read pre enc a

theorem reads_exact {n : Nat} {b : Bytes} (h : b.length = n) (pre : Bytes) :
    Reads (readExact n) pre b b := by
  intro post
  change readExact n (b ++ post) = _
  rw [readExact, List.length_append, if_pos (by omega), List.take_left' h, List.drop_left' h]

theorem reads_countedString {s : Bytes} (h : s.length < 2 ^ 16) (pre : Bytes) :
    Reads readCountedString pre (writeCountedString s) s := by
  have hlen : s.length = Bytes.ofBe (Bytes.be 2 s.length) := (Bytes.ofBe_be_of_lt h).symm
  exact (reads_exact (Bytes.length_be 2 _) pre).bind (reads_exact hlen _)

theorem reads_components {cs : List Str} (h : ∀ c ∈ cs, c.toUtf8.length < 2 ^ 16) (pre : Bytes) :
    Reads (readComponents cs.length) pre (cs.flatMap fun c => writeCountedString c.toUtf8) cs := by
  induction cs generalizing pre with
  | nil => exact .pure pre []
  | cons c cs ih =>
    rw [List.forall_mem_cons] at h
    have hrest := (ih h.2 (pre ++ writeCountedString c.toUtf8)).map
      (g := fun cs => Utf8.fromUtf8Lossy c.toUtf8 :: cs)
    have hall := (reads_countedString h.1 pre).bind (f := fun c => do
      let cs ← readComponents cs.length
      return Utf8.fromUtf8Lossy c :: cs) hrest
    rwa [Utf8.fromUtf8Lossy_toUtf8] at hall

theorem reads_enctype (enctype : Enctype) (pre : Bytes) :
    Reads readEnctype pre (Bytes.be 2 enctype.etypeNumber.toUInt32.toNat) enctype := by
  have hnumber : Enctype.ofNumber (Int32.ofNat (Bytes.ofBe
      (Bytes.be 2 enctype.etypeNumber.toUInt32.toNat))) = some enctype := by
    cases enctype <;> rfl
  rw [← List.append_nil (Bytes.be 2 _)]
  refine (reads_exact (Bytes.length_be 2 _) pre).bind ?_
  simp only [hnumber]
  exact .pure _ _

theorem reads_kvno (vno8 pre : Bytes) (kvno : UInt32) :
    Reads (readKvno vno8) pre (Bytes.be 4 kvno.toNat) kvno := by
  intro post
  have hroom : 4 ≤ (Bytes.be 4 kvno.toNat ++ post).length := by
    rw [List.length_append, Bytes.length_be]
    exact Nat.le_add_right 4 _
  have hlong := (reads_exact (Bytes.length_be 4 kvno.toNat) pre).map
    (g := fun b => UInt32.ofNat (Bytes.ofBe b)) post
  rw [Bytes.ofBe_be_of_lt kvno.toNat_lt, UInt32.ofNat_toNat] at hlong
  rw [readKvno, StateT.run_bind, StateT.run_get, pure_bind, if_pos hroom]
  exact hlong

structure Fits (entry : KeytabEntry) : Prop where
  realm : entry.realm.toUtf8.length < 2 ^ 16
  components : ∀ c ∈ entry.components, c.toUtf8.length < 2 ^ 16
  count : entry.components.length < 2 ^ 16
  key : entry.key.length < 2 ^ 16
  body : (encodeEntryBody entry).length < 2 ^ 31

theorem reads_entry {entry : KeytabEntry} (h : Fits entry) (pre : Bytes) :
    Reads decodeEntry pre (encodeEntryBody entry) entry := by
  have hcomponents : ∀ pre, Reads
      (readComponents (Bytes.ofBe (Bytes.be 2 entry.components.length))) pre
      (entry.components.flatMap fun c => writeCountedString c.toUtf8) entry.components := by
    rw [Bytes.ofBe_be_of_lt h.count]
    exact reads_components h.components
  have hread : Reads decodeEntry pre (encodeEntryBody entry)
      ⟨Utf8.fromUtf8Lossy entry.realm.toUtf8, entry.components,
        (UInt32.ofNat (Bytes.ofBe (Bytes.be 4 entry.nameType.toUInt32.toNat))).toInt32,
        UInt32.ofNat (Bytes.ofBe (Bytes.be 4 entry.timestamp.toNat)), entry.kvno, entry.enctype,
        entry.key⟩ :=
    (reads_exact (Bytes.length_be 2 _) pre).bind ((reads_countedString h.realm _).bind
      ((hcomponents _).bind ((reads_exact (Bytes.length_be 4 _) _).bind
        ((reads_exact (Bytes.length_be 4 _) _).bind ((reads_exact (Bytes.length_be 1 _) _).bind
          ((reads_enctype entry.enctype _).bind ((reads_countedString h.key _).bind
            (reads_kvno _ _ entry.kvno).map)))))))
  rwa [Utf8.fromUtf8Lossy_toUtf8, Bytes.ofBe_be_of_lt entry.nameType.toUInt32.toNat_lt,
    Bytes.ofBe_be_of_lt entry.timestamp.toNat_lt, UInt32.ofNat_toNat, UInt32.ofNat_toNat,
    Int32.toInt32_toUInt32] at hread

theorem decodeEntryBody_encodeEntryBody {entry : KeytabEntry} (h : Fits entry) :
    decodeEntryBody (encodeEntryBody entry) = .ok entry := by
  have hread := reads_entry h [] []
  rw [List.append_nil] at hread
  change Prod.fst <$> decodeEntry.run (encodeEntryBody entry) = .ok entry
  rw [hread]
  rfl

end Entries

section Records

structure Hole where
  junk : Bytes
  pos : 0 < junk.length
  lt : junk.length < 2 ^ 31

inductive Record
  | entry (entry : KeytabEntry)
  | hole (hole : Hole)

namespace Record

def kept : Record → Option KeytabEntry
  | entry e => some e
  | hole _ => none

def len : Record → Int
  | entry e => (encodeEntryBody e).length
  | hole h => -h.junk.length

def payload : Record → Bytes
  | entry e => encodeEntryBody e
  | hole h => h.junk

def encode (r : Record) : Bytes := Bytes.be 4 (Int32.ofInt r.len).toUInt32.toNat ++ r.payload

end Record

def file (records : List Record) : Bytes := [0x05, 0x02] ++ records.flatMap Record.encode

theorem be_ofInt (n : Nat) : Bytes.be 4 (Int32.ofInt n).toUInt32.toNat = Bytes.be 4 n := by
  have hmod := Bytes.be_ofBe (Bytes.be 4 n)
  rw [Bytes.length_be, Bytes.ofBe_be] at hmod
  rw [Int32.ofInt_eq_ofNat]
  change Bytes.be 4 (UInt32.ofNat n).toNat = _
  rw [UInt32.toNat_ofNat']
  exact hmod

theorem write_eq_file (entries : List KeytabEntry) :
    write entries = file (entries.map .entry) := by
  rw [write, file, List.flatMap_map]
  congr 1
  refine List.flatMap_congr fun entry _ => ?_
  rw [Record.encode, Record.len, be_ofInt]
  rfl

theorem readRecord_encode {r : Record} (h : ∀ e, r.kept = some e → Fits e) (post : Bytes) :
    readRecord (Int32.ofInt r.len) (r.payload ++ post) = .ok (r.kept, post) := by
  cases r with
  | entry e =>
    have hfits := h e rfl
    have hlen : (Int32.ofInt (Record.entry e).len).toInt = (encodeEntryBody e).length :=
      Int32.toInt_ofInt_of_le (by simp only [Record.len]; omega) (Int.ofNat_lt.mpr hfits.body)
    have hread := reads_exact (n := (encodeEntryBody e).length) rfl [] post
    have hpos : ¬ Int32.ofInt (Record.entry e).len < 0 := by
      rw [Int32.lt_iff_toInt_lt, hlen]
      exact Int.not_lt.mpr (Int.natCast_nonneg _)
    rw [readRecord, if_neg hpos, hlen, Int.toNat_natCast]
    change (readExact _).run (encodeEntryBody e ++ post) >>= _ = _
    simp only [hread, Outcome.ok_bind, decodeEntryBody_encodeEntryBody hfits]
    rfl
  | hole hole =>
    have hpos := hole.pos
    have hlt := hole.lt
    have hlen : (Int32.ofInt (Record.hole hole).len).toInt = -hole.junk.length :=
      Int32.toInt_ofInt_of_le (by simp only [Record.len]; omega) (by simp only [Record.len]; omega)
    have hneg : Int32.ofInt (Record.hole hole).len < 0 := by
      rw [Int32.lt_iff_toInt_lt, hlen]
      exact Int.neg_neg_of_pos (Int.natCast_pos.mpr hpos)
    have hmin : Int32.ofInt (Record.hole hole).len ≠ Int32.minValue := by
      intro heq
      rw [heq] at hlen
      change (-2 ^ 31 : Int) = _ at hlen
      omega
    have hread := reads_exact (n := hole.junk.length) rfl [] post
    rw [readRecord, if_pos hneg, if_neg hmin, hlen, Int.neg_neg, Int.toNat_natCast]
    change (readExact _).run (hole.junk ++ post) >>= _ = _
    rw [hread]
    rfl

theorem readRecords_nil (entries : List KeytabEntry) : readRecords [] entries = .ok entries := by
  rw [readRecords]
  rfl

theorem readRecords_encode {r : Record} (h : ∀ e, r.kept = some e → Fits e) (post : Bytes)
    (entries : List KeytabEntry) :
    readRecords (r.encode ++ post) entries = readRecords post (entries ++ r.kept.toList) := by
  have hlen : readExact 4 (r.encode ++ post) =
      .ok (Bytes.be 4 (Int32.ofInt r.len).toUInt32.toNat, r.payload ++ post) := by
    rw [Record.encode, List.append_assoc]
    exact reads_exact (Bytes.length_be 4 _) [] _
  have hrecord := readRecord_encode h post
  have hvalue : (UInt32.ofNat (Bytes.ofBe (Bytes.be 4 (Int32.ofInt r.len).toUInt32.toNat))).toInt32 =
      Int32.ofInt r.len := by
    rw [Bytes.ofBe_be_of_lt (UInt32.toNat_lt _), UInt32.ofNat_toNat, Int32.toInt32_toUInt32]
  rw [readRecords]
  split
  next hend => rw [hlen] at hend; cases hend
  next len rest hfour =>
    rw [hlen] at hfour
    cases hfour
    split
    next e hfail => rw [hvalue, hrecord] at hfail; cases hfail
    next record rest hnext =>
      rw [hvalue, hrecord] at hnext
      cases hnext
      rfl

theorem readRecords_flatMap {records : List Record}
    (h : ∀ e ∈ records.filterMap Record.kept, Fits e) (entries : List KeytabEntry) :
    readRecords (records.flatMap Record.encode) entries =
      .ok (entries ++ records.filterMap Record.kept) := by
  induction records generalizing entries with
  | nil => rw [List.flatMap_nil, readRecords_nil, List.filterMap_nil, List.append_nil]
  | cons r records ih =>
    have hfirst : ∀ e, r.kept = some e → Fits e := fun e he =>
      h e (List.mem_filterMap.mpr ⟨r, List.mem_cons_self, he⟩)
    have hrest : ∀ e ∈ records.filterMap Record.kept, Fits e := by
      intro e he
      obtain ⟨r', hr', he⟩ := List.mem_filterMap.mp he
      exact h e (List.mem_filterMap.mpr ⟨r', List.mem_cons_of_mem r hr', he⟩)
    rw [List.flatMap_cons, readRecords_encode hfirst, ih hrest, List.append_assoc]
    cases r with
    | entry e => rfl
    | hole hole => rfl

theorem read_file {records : List Record} (h : ∀ e ∈ records.filterMap Record.kept, Fits e) :
    read (file records) = .ok (records.filterMap Record.kept) :=
  readRecords_flatMap h []

/-- What is written is read back, whatever holes come in between. -/
theorem read_write_with_holes {entries : List KeytabEntry} (h : ∀ e ∈ entries, Fits e) :
    read (write entries) = .ok entries ∧
      ∀ records : List Record, records.filterMap Record.kept = entries →
        read (file records) = .ok entries := by
  have hfile : ∀ records : List Record, records.filterMap Record.kept = entries →
      read (file records) = .ok entries := by
    rintro records rfl
    exact read_file h
  refine ⟨?_, hfile⟩
  rw [write_eq_file]
  exact hfile _ (by rw [List.filterMap_map]; exact List.filterMap_some)

def sampleHost : KeytabEntry :=
  ⟨"IRON.LO", ["host", "il1.g8.lo"], 2, 1700000000, 1, .aes256CtsHmacSha384_192,
    List.replicate 32 0x42⟩

def sampleLdap : KeytabEntry :=
  ⟨"IRON.LO", ["ldap", "il2.g8.lo"], -1, 1700000000, 300, .aes256CtsHmacSha1_96,
    List.replicate 32 0x43⟩

theorem read_write_with_holes_sample :
    read (write [sampleHost, sampleLdap]) = .ok [sampleHost, sampleLdap] ∧
      read (file [.entry sampleHost, .hole ⟨[0, 1, 2], by decide, by decide⟩, .entry sampleLdap]) =
        .ok [sampleHost, sampleLdap] := by
  have hhost : Fits sampleHost :=
    ⟨by decide, by decide, by decide, by decide, by decide +kernel⟩
  have hldap : Fits sampleLdap :=
    ⟨by decide, by decide, by decide, by decide, by decide +kernel⟩
  have hall : ∀ e ∈ [sampleHost, sampleLdap], Fits e := by
    rw [List.forall_mem_cons, List.forall_mem_singleton]
    exact ⟨hhost, hldap⟩
  have hread := read_write_with_holes hall
  exact ⟨hread.1, hread.2 _ rfl⟩

end Records

end Keytab

end IronDirectory.Kdc
