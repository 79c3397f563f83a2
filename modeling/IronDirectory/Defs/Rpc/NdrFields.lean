import IronDirectory.Defs.Rpc.NdrLaws

namespace IronDirectory.Rpc

open Base Naming

/-- One thing to marshal.  A counted string leaves its header where it stands
and its buffer where the sequence says, first come first served. -/
inductive Field
  | u8 (v : UInt8)
  | u16 (v : UInt16)
  | u32 (v : UInt32)
  | u64 (v : UInt64)
  | bytes (b : Bytes)
  | handle (h : Vector UInt8 20)
  | sid (sid : Sid)
  | wstr (s : Str)
  | counted (s : Str)
  | deferred
  | pad

inductive FieldKind
  | u8
  | u16
  | u32
  | u64
  | bytes (n : Nat)
  | handle
  | sid
  | wstr
  | counted
  | deferred
  | pad

inductive FieldValue
  | u8 (v : UInt8)
  | u16 (v : UInt16)
  | u32 (v : UInt32)
  | u64 (v : UInt64)
  | bytes (b : Bytes)
  | handle (h : Bytes)
  | sid (sid : Sid)
  | wstr (s : Str)
  | counted (length : Nat) (null : Bool)
  | deferred (s : Str)
  | pad

namespace Field

def kind : Field → FieldKind
  | u8 _ => .u8
  | u16 _ => .u16
  | u32 _ => .u32
  | u64 _ => .u64
  | bytes b => .bytes b.length
  | handle _ => .handle
  | sid _ => .sid
  | wstr _ => .wstr
  | counted _ => .counted
  | deferred => .deferred
  | pad => .pad

def due : Field → List Str → List Str
  | counted s, queue => queue ++ [s]
  | deferred, queue => queue.tail
  | _, queue => queue

def write (w : NdrWriter) (queue : List Str) : Field → NdrWriter
  | u8 v => w.u8 v
  | u16 v => w.u16 v
  | u32 v => w.u32 v
  | u64 v => w.u64 v
  | bytes b => w.bytes b
  | handle h => w.handle h.toList
  | sid s => w.sidDeferred s
  | wstr s => w.embeddedWstr s
  | counted s => w.unicodeStringHeader s
  | deferred => w.unicodeStringDeferred (queue.headD [])
  | pad => w.padTo4

def value (queue : List Str) : Field → FieldValue
  | u8 v => .u8 v
  | u16 v => .u16 v
  | u32 v => .u32 v
  | u64 v => .u64 v
  | bytes b => .bytes b
  | handle h => .handle h.toList
  | sid s => .sid s
  | wstr s => .wstr s
  | counted s => .counted (2 * s.encodeUtf16.length) s.isEmpty
  | deferred => .deferred (queue.headD [])
  | pad => .pad

def writeAll : NdrWriter → List Str → List Field → NdrWriter
  | w, _, [] => w
  | w, queue, f :: fs => writeAll (f.write w queue) (f.due queue) fs

def values : List Str → List Field → List FieldValue
  | _, [] => []
  | queue, f :: fs => f.value queue :: values (f.due queue) fs

end Field

namespace FieldKind

/-- Reads one field; `queue` says of each counted string whose buffer is due
whether it has one. -/
def read (queue : List Bool) : FieldKind → NdrRead (FieldValue × List Bool)
  | u8 => do return (.u8 (← NdrRead.u8), queue)
  | u16 => do return (.u16 (← NdrRead.u16), queue)
  | u32 => do return (.u32 (← NdrRead.u32), queue)
  | u64 => do return (.u64 (← NdrRead.u64), queue)
  | bytes n => do return (.bytes (← NdrRead.bytes n), queue)
  | handle => do return (.handle (← NdrRead.handle), queue)
  | sid => do return (.sid (← NdrRead.sidDeferred), queue)
  | wstr => do return (.wstr (← NdrRead.embeddedWstr), queue)
  | counted => do
    let (length, referent) ← NdrRead.unicodeStringHeader
    return (.counted length.toNat (referent == 0), queue ++ [referent != 0])
  | deferred =>
    if queue.headD false then do
      let s ← NdrRead.unicodeStringDeferred
      NdrRead.padTo4
      return (.deferred s, queue.tail)
    else return (.deferred [], queue.tail)
  | pad => do
    NdrRead.padTo4
    return (.pad, queue)

def readAll : List Bool → List FieldKind → NdrRead (List FieldValue)
  | _, [] => return []
  | queue, k :: ks => do
    let (v, queue) ← k.read queue
    return v :: (← readAll queue ks)

end FieldKind

namespace Field

def Fits : Field → Prop
  | sid s => s.authority.toNat < 2 ^ 48 ∧ s.subAuthorities.length < 256
  | wstr s => s.encodeUtf16.length < 2 ^ 32
  | counted s => s.encodeUtf16.length < 32768
  | _ => True

def pointers : Field → Nat
  | counted s => if s = [] then 0 else 1
  | _ => 0

def hasBuffer (s : Str) : Bool := !s.isEmpty

section Step

variable {w : NdrWriter} {queue : List Str}

theorem toNat_byteLength {s : Str} (hs : s.encodeUtf16.length < 32768) :
    (UInt16.ofNat (s.encodeUtf16.length * 2)).toNat = 2 * s.encodeUtf16.length := by
  rw [UInt16.toNat_ofNat', Nat.mul_comm]
  exact Nat.mod_eq_of_lt (by omega)

theorem reads_counted {s : Str} (hs : s.encodeUtf16.length < 32768)
    (hid : s ≠ [] → w.nextReferentId ≠ 0) :
    NdrRead.Reads (FieldKind.counted.read (queue.map hasBuffer)) w.buf
      (headerBytes w.nextReferentId s)
      ((counted s).value queue, ((counted s).due queue).map hasBuffer) := by
  have hread := (NdrRead.reads_unicodeStringHeader w.buf w.nextReferentId s).map (g := fun r =>
    (FieldValue.counted r.1.toNat (r.2 == 0), queue.map hasBuffer ++ [r.2 != 0]))
  have hnull : ((if s = [] then 0 else w.nextReferentId) == 0) = s.isEmpty := by
    cases s with
    | nil => rfl
    | cons c s => simpa using hid
  have hbuffer : ((if s = [] then 0 else w.nextReferentId) != 0) = hasBuffer s := by
    rw [bne, hnull, hasBuffer]
  rw [toNat_byteLength hs, hnull, hbuffer] at hread
  rw [value, due, List.map_append]
  exact hread

theorem reads_deferred (hqueue : ∀ s ∈ queue, s.encodeUtf16.length < 32768) :
    NdrRead.Reads (FieldKind.deferred.read (queue.map hasBuffer)) w.buf
      (NdrWriter.deferredBytes w.buf.length (queue.headD []))
      (deferred.value queue, (deferred.due queue).map hasBuffer) := by
  cases queue with
  | nil => exact .pure _ _
  | cons s queue =>
    cases s with
    | nil => exact .pure _ _
    | cons c s =>
      have hfits : (Str.encodeUtf16 (c :: s)).length < 2 ^ 32 :=
        (hqueue _ List.mem_cons_self).trans (by decide)
      have hpad : (List.replicate (padding 4 (w.buf.length + (wideBytes (c :: s)).length))
          (0 : UInt8)).length = padding 4 (w.buf ++ wideBytes (c :: s)).length := by
        rw [List.length_replicate, List.length_append]
      exact (NdrRead.reads_unicodeStringDeferred w.buf hfits).bind
        (NdrRead.reads_padTo4 _ hpad).map

theorem exists_reads {f : Field} (hf : f.Fits) (hid : f.pointers ≠ 0 → w.nextReferentId ≠ 0)
    (hqueue : ∀ s ∈ queue, s.encodeUtf16.length < 32768) :
    ∃ enc, (f.write w queue).buf = w.buf ++ enc ∧
      NdrRead.Reads (f.kind.read (queue.map hasBuffer)) w.buf enc
        (f.value queue, (f.due queue).map hasBuffer) := by
  cases f with
  | u8 v => exact ⟨_, rfl, (NdrRead.reads_u8 _ v).map⟩
  | u16 v => exact ⟨_, rfl, (NdrRead.reads_u16 _ v).map⟩
  | u32 v => exact ⟨_, rfl, (NdrRead.reads_u32 _ v).map⟩
  | u64 v => exact ⟨_, rfl, (NdrRead.reads_u64 _ v).map⟩
  | bytes b => exact ⟨_, rfl, (NdrRead.reads_bytes _ b).map⟩
  | handle h => exact ⟨_, rfl, (NdrRead.reads_bytes_of_length h.length_toList _).map⟩
  | sid s => exact ⟨_, w.buf_sidDeferred s, (NdrRead.reads_sidDeferred _ hf).map⟩
  | wstr s => exact ⟨_, w.buf_embeddedWstr s, (NdrRead.reads_unicodeStringDeferred _ hf).map⟩
  | counted s =>
    refine ⟨_, w.buf_unicodeStringHeader s, reads_counted hf fun hs => hid ?_⟩
    rw [pointers, if_neg hs]
    decide
  | deferred =>
    refine ⟨_, ?_, reads_deferred hqueue⟩
    rw [write, NdrWriter.unicodeStringDeferred_eq]
  | pad => exact ⟨_, w.buf_padTo4, (NdrRead.reads_padTo4 _ List.length_replicate).map⟩

theorem nextReferentId_write (f : Field) : (f.write w queue).nextReferentId =
    w.nextReferentId + 4 * UInt32.ofNat f.pointers := by
  cases f with
  | counted s =>
    rw [write, NdrWriter.nextReferentId_unicodeStringHeader, pointers]
    split
    · exact (UInt32.add_zero _).symm
    · rfl
  | deferred =>
    rw [write, NdrWriter.unicodeStringDeferred_eq]
    exact (UInt32.add_zero _).symm
  | wstr s =>
    rw [write, NdrWriter.embeddedWstr_eq]
    exact (UInt32.add_zero _).symm
  | _ => exact (UInt32.add_zero _).symm

theorem due_fits {f : Field} (hf : f.Fits) (hqueue : ∀ s ∈ queue, s.encodeUtf16.length < 32768) :
    ∀ s ∈ f.due queue, s.encodeUtf16.length < 32768 := by
  cases f with
  | counted t =>
    intro s hs
    rw [due, List.mem_append, List.mem_singleton] at hs
    cases hs with
    | inl hs => exact hqueue s hs
    | inr hs => exact hs ▸ hf
  | deferred => exact fun s hs => hqueue s (List.mem_of_mem_tail hs)
  | _ => exact hqueue

end Step

section Run

def idAfter (k : Nat) : UInt32 := UInt32.ofNat (NdrWriter.firstReferentId.toNat + 4 * k)

theorem idAfter_add (k n : Nat) : idAfter k + 4 * UInt32.ofNat n = idAfter (k + n) := by
  have hfour : (4 : UInt32) * UInt32.ofNat n = UInt32.ofNat (4 * n) := (UInt32.ofNat_mul 4 n).symm
  rw [idAfter, idAfter, hfour, ← UInt32.ofNat_add, Nat.mul_add, Nat.add_assoc]

theorem idAfter_ne_zero {k : Nat} (h : k < 2 ^ 30 - 2 ^ 15) : idAfter k ≠ 0 := by
  intro hzero
  have hnat := congrArg UInt32.toNat hzero
  have hfirst : NdrWriter.firstReferentId.toNat = 2 ^ 17 := rfl
  rw [idAfter, hfirst, UInt32.toNat_ofNat', UInt32.toNat_zero] at hnat
  omega

theorem idAfter_eq_zero : idAfter (2 ^ 30 - 2 ^ 15) = 0 := rfl

theorem exists_reads_append {fs gs : List Field} {vs : List FieldValue} {w : NdrWriter}
    {queue : List Str} {k : Nat} (hfits : ∀ f ∈ fs, f.Fits)
    (hqueue : ∀ s ∈ queue, s.encodeUtf16.length < 32768) (hid : w.nextReferentId = idAfter k)
    (hpointers : k + (fs.map pointers).sum ≤ 2 ^ 30 - 2 ^ 15)
    (hlast : ∀ (w' : NdrWriter) queue', w'.nextReferentId = idAfter (k + (fs.map pointers).sum) →
      ∃ enc, (writeAll w' queue' gs).buf = w'.buf ++ enc ∧
        NdrRead.Reads (FieldKind.readAll (queue'.map hasBuffer) (gs.map kind)) w'.buf enc vs) :
    ∃ enc, (writeAll w queue (fs ++ gs)).buf = w.buf ++ enc ∧
      NdrRead.Reads (FieldKind.readAll (queue.map hasBuffer) ((fs ++ gs).map kind)) w.buf enc
        (values queue fs ++ vs) := by
  induction fs generalizing w queue k with
  | nil => exact hlast w queue hid
  | cons f fs ih =>
    rw [List.forall_mem_cons] at hfits
    rw [List.map_cons, List.sum_cons] at hpointers hlast
    rw [← Nat.add_assoc] at hpointers hlast
    have hnull : f.pointers ≠ 0 → w.nextReferentId ≠ 0 := by
      intro hf
      rw [hid]
      exact idAfter_ne_zero (by omega)
    have hnext : (f.write w queue).nextReferentId = idAfter (k + f.pointers) := by
      rw [nextReferentId_write, hid, idAfter_add]
    obtain ⟨enc, hbuf, hread⟩ := exists_reads hfits.1 hnull hqueue
    obtain ⟨rest, hrest, hreads⟩ :=
      ih hfits.2 (due_fits hfits.1 hqueue) hnext hpointers hlast
    rw [hbuf] at hrest hreads
    refine ⟨enc ++ rest, ?_, hread.bind hreads.map⟩
    rw [List.cons_append, writeAll, hrest, List.append_assoc]

end Run

/-- Fields are read back as they were written, to the end of the buffer, as long
as their counts and the identifiers of their pointers fit 32 bits. -/
theorem fields_readBack {fs : List Field} (hfits : ∀ f ∈ fs, f.Fits)
    (hpointers : (fs.map pointers).sum ≤ 2 ^ 30 - 2 ^ 15) :
    StateT.run (FieldKind.readAll [] (fs.map kind)) ⟨(writeAll .new [] fs).buf, 0⟩ =
      .ok (values [] fs, ⟨(writeAll .new [] fs).buf, (writeAll .new [] fs).buf.length⟩) := by
  obtain ⟨enc, hbuf, hread⟩ := @exists_reads_append fs [] [] .new [] 0 hfits nofun rfl (by omega)
    fun w' queue' _ => ⟨[], (List.append_nil _).symm, .pure _ _⟩
  rw [List.append_nil] at hbuf hread
  rw [List.append_nil] at hread
  rw [hbuf]
  exact NdrRead.run_eq_of_reads hread

def sampleFields : List Field :=
  [.u8 7, .pad, .counted "G8", .counted [], .deferred, .sid (.new 5 [21, 1, 2, 3]), .deferred,
    .wstr "abc", .u64 9]

theorem fields_readBack_sample :
    StateT.run (FieldKind.readAll [] (sampleFields.map kind))
        ⟨(writeAll .new [] sampleFields).buf, 0⟩ =
      .ok (values [] sampleFields, ⟨(writeAll .new [] sampleFields).buf,
        (writeAll .new [] sampleFields).buf.length⟩) := by
  refine fields_readBack ?_ (by decide)
  intro f hf
  simp only [sampleFields, List.mem_cons, List.not_mem_nil, or_false] at hf
  rcases hf with rfl | rfl | rfl | rfl | rfl | rfl | rfl | rfl | rfl <;>
    first | trivial | (unfold Fits; decide)

theorem wstr_readBack_nil {s : Str} (h : UInt32.ofNat s.encodeUtf16.length = 0) :
    StateT.run' (FieldKind.readAll [] [.wstr]) ⟨(writeAll .new [] [.wstr s]).buf, 0⟩ =
      .ok [.wstr []] := by
  have hbuf : (writeAll .new [] [.wstr s]).buf = wideBytes [] ++ unitBytes s.encodeUtf16 := by
    rw [writeAll, writeAll, write, NdrWriter.buf_embeddedWstr, wideBytes, h]
    rfl
  have hempty : NdrRead.Reads NdrRead.embeddedWstr [] (wideBytes []) [] :=
    NdrRead.reads_unicodeStringDeferred [] (by decide)
  have hread : NdrRead.Reads (FieldKind.readAll [] [.wstr]) [] (wideBytes [] ++ [])
      [FieldValue.wstr []] :=
    hempty.map.bind (Takes.pure _ _).map
  rw [List.append_nil] at hread
  rw [hbuf]
  exact NdrRead.run'_eq_of_reads hread _

theorem length_encodeUtf16_replicate (n : Nat) :
    (Str.encodeUtf16 (List.replicate n 'a')).length = n := by
  simp [Str.encodeUtf16, List.length_flatMap]

/-- The count of a string of `2 ^ 32` units is written as zero, and the string
is read back empty. -/
theorem long_wstr_not_readBack : ∃ s : Str, s ≠ [] ∧
    StateT.run' (FieldKind.readAll [] ([Field.wstr s].map kind))
      ⟨(writeAll .new [] [.wstr s]).buf, 0⟩ = .ok [.wstr []] := by
  refine ⟨List.replicate (2 ^ 32) 'a', fun h => ?_, wstr_readBack_nil ?_⟩
  · have hlength := congrArg List.length h
    rw [List.length_replicate, List.length_nil] at hlength
    exact absurd hlength (by decide)
  · rw [length_encodeUtf16_replicate]
    rfl

theorem counted_readBack_null {fs : List Field} {s : Str} (hfits : ∀ f ∈ fs, f.Fits)
    (hpointers : (fs.map pointers).sum = 2 ^ 30 - 2 ^ 15) (hs : s.encodeUtf16.length < 32768) :
    StateT.run' (FieldKind.readAll [] ((fs ++ [counted s]).map kind))
        ⟨(writeAll .new [] (fs ++ [counted s])).buf, 0⟩ =
      .ok (values [] fs ++ [.counted (2 * s.encodeUtf16.length) true]) := by
  have hlast : ∀ (w : NdrWriter) (queue : List Str),
      w.nextReferentId = idAfter (0 + (fs.map pointers).sum) →
      ∃ enc, (writeAll w queue [counted s]).buf = w.buf ++ enc ∧
        NdrRead.Reads (FieldKind.readAll (queue.map hasBuffer) [.counted]) w.buf enc
          [.counted (2 * s.encodeUtf16.length) true] := by
    intro w queue hid
    rw [Nat.zero_add, hpointers, idAfter_eq_zero] at hid
    have hread := (NdrRead.reads_unicodeStringHeader w.buf 0 s).map (g := fun r =>
      (FieldValue.counted r.1.toNat (r.2 == 0), queue.map hasBuffer ++ [r.2 != 0]))
    rw [toNat_byteLength hs, ite_self] at hread
    refine ⟨headerBytes 0 s ++ [], ?_, hread.bind (Takes.pure _ _).map⟩
    rw [writeAll, writeAll, write, NdrWriter.buf_unicodeStringHeader, hid, List.append_nil]
  obtain ⟨enc, hbuf, hread⟩ := @exists_reads_append fs [counted s] _ .new [] 0 hfits nofun rfl
    (by omega) hlast
  have hrun := NdrRead.run'_eq_of_reads hread []
  rw [List.append_nil] at hrun
  rw [hbuf]
  exact hrun

theorem values_concat_counted (queue : List Str) (fs : List Field) (s : Str) :
    values queue (fs ++ [counted s]) =
      values queue fs ++ [.counted (2 * s.encodeUtf16.length) s.isEmpty] := by
  induction fs generalizing queue with
  | nil => rfl
  | cons f fs ih => rw [List.cons_append, values, values, ih, List.cons_append]

/-- The pointer after `2 ^ 30 - 2 ^ 15` others is numbered zero, and its string
is read back as a null one. -/
theorem many_counted_not_readBack : ∃ fs : List Field, (∀ f ∈ fs, f.Fits) ∧
    (fs.map pointers).sum = 2 ^ 30 - 2 ^ 15 + 1 ∧
    StateT.run' (FieldKind.readAll [] (fs.map kind)) ⟨(writeAll .new [] fs).buf, 0⟩ ≠
      .ok (values [] fs) := by
  have hone : (counted "a").Fits := by
    rw [Fits]
    decide
  have hfits : ∀ f ∈ List.replicate (2 ^ 30 - 2 ^ 15) (counted "a"), f.Fits := by
    intro f hf
    rw [List.eq_of_mem_replicate hf]
    exact hone
  have hsum : ((List.replicate (2 ^ 30 - 2 ^ 15) (counted "a")).map pointers).sum =
      2 ^ 30 - 2 ^ 15 := by
    rw [List.map_replicate, List.sum_replicate, pointers, if_neg (by decide), smul_eq_mul,
      Nat.mul_one]
  refine ⟨List.replicate (2 ^ 30 - 2 ^ 15) (counted "a") ++ [counted "a"], ?_, ?_, ?_⟩
  · intro f hf
    rw [List.mem_append, List.mem_singleton] at hf
    exact hf.elim (hfits f) fun h => h ▸ hone
  · rw [List.map_append, List.sum_append, hsum]
    rfl
  · rw [counted_readBack_null hfits hsum (by decide), values_concat_counted]
    intro h
    have hlast := List.append_cancel_left (Except.ok.inj h)
    exact absurd hlast (by simp [Str.ofString])

end Field

end IronDirectory.Rpc
