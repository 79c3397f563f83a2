import IronDirectory.Defs.Base.Regions
import IronDirectory.Defs.Kdc.Pac

namespace IronDirectory.Kdc.Pac

open Base

section Blocks

theorem le_blockLen (n : Nat) : n ≤ blockLen n := by
  unfold blockLen
  omega

theorem blockLen_mod (n : Nat) : blockLen n % 8 = 0 := Nat.mul_mod_left _ 8

theorem blockLen_add {offset : Nat} (h : offset % 8 = 0) (n : Nat) :
    blockLen (offset + n) = offset + blockLen n := by
  unfold blockLen
  omega

end Blocks

section Placing

def placed : Nat → List (UInt32 × Bytes) → List (UInt32 × Region)
  | _, [] => []
  | offset, (ulType, data) :: rest =>
    (ulType, ⟨offset, data.length⟩) :: placed (blockLen (offset + data.length)) rest

def encodeRecord (r : UInt32 × Region) : Bytes :=
  Bytes.le 4 r.1.toNat ++ Bytes.le 4 r.2.size ++ Bytes.le 8 r.2.start

theorem length_encodeRecord (r : UInt32 × Region) : (encodeRecord r).length = 16 := rfl

theorem length_flatMap_encodeRecord (rs : List (UInt32 × Region)) :
    (rs.flatMap encodeRecord).length = 16 * rs.length := by
  simp [List.length_flatMap, length_encodeRecord, Nat.mul_comm]

theorem length_placed (offset : Nat) (buffers : List (UInt32 × Bytes)) :
    (placed offset buffers).length = buffers.length := by
  induction buffers generalizing offset with
  | nil => rfl
  | cons buffer rest ih => rw [placed, List.length_cons, List.length_cons, ih]

theorem layout_records (offset : Nat) (buffers : List (UInt32 × Bytes)) :
    (layout offset buffers).1 = (placed offset buffers).flatMap encodeRecord := by
  induction buffers generalizing offset with
  | nil => rfl
  | cons buffer rest ih =>
    obtain ⟨ulType, data⟩ := buffer
    rw [layout, placed, List.flatMap_cons, ← ih]
    rfl

theorem placed_bounds {offset : Nat} (h : offset % 8 = 0) {buffers : List (UInt32 × Bytes)}
    {r : UInt32 × Region} (hr : r ∈ placed offset buffers) :
    offset ≤ r.2.start ∧ r.2.start % 8 = 0 ∧
      r.2.stop ≤ offset + (layout offset buffers).2.length := by
  induction buffers generalizing offset with
  | nil => cases hr
  | cons buffer rest ih =>
    obtain ⟨ulType, data⟩ := buffer
    have hpad := le_blockLen data.length
    have hnext := blockLen_add h data.length
    have hlength : (layout offset ((ulType, data) :: rest)).2.length = blockLen data.length +
        (layout (blockLen (offset + data.length)) rest).2.length := by
      simp only [layout, List.length_append, List.length_replicate]
      omega
    rw [hlength]
    cases hr with
    | head =>
      refine ⟨Nat.le_refl _, h, ?_⟩
      change offset + data.length ≤ _
      omega
    | tail _ hmem =>
      have hrest := ih (blockLen_mod _) hmem
      omega

theorem pairwise_placed {offset : Nat} (h : offset % 8 = 0) (buffers : List (UInt32 × Bytes)) :
    (placed offset buffers).Pairwise fun r s => r.2.Disjoint s.2 := by
  induction buffers generalizing offset with
  | nil => exact List.Pairwise.nil
  | cons buffer rest ih =>
    obtain ⟨ulType, data⟩ := buffer
    refine List.Pairwise.cons (fun s hs i hi => ?_) (ih (blockLen_mod _))
    have hstart := (placed_bounds (blockLen_mod _) hs).1
    have hle := le_blockLen (offset + data.length)
    have hfirst : i < offset + data.length := hi.1.2
    have hsecond : s.2.start ≤ i := hi.2.1
    omega

theorem slice_placed {offset : Nat} (h : offset % 8 = 0) (buffers : List (UInt32 × Bytes))
    {pre : Bytes} (hpre : pre.length = offset) :
    (placed offset buffers).map (fun r =>
      (r.1, Bytes.slice r.2.start r.2.size (pre ++ (layout offset buffers).2))) = buffers := by
  induction buffers generalizing offset pre with
  | nil => rfl
  | cons buffer rest ih =>
    obtain ⟨ulType, data⟩ := buffer
    set padding := List.replicate (blockLen data.length - data.length) (0 : UInt8)
    have hnextAt : (pre ++ (data ++ padding)).length = blockLen (offset + data.length) := by
      have hpad := le_blockLen data.length
      rw [blockLen_add h]
      simp only [List.length_append, padding, List.length_replicate]
      omega
    have hshape : pre ++ (layout offset ((ulType, data) :: rest)).2 =
        pre ++ (data ++ padding) ++ (layout (blockLen (offset + data.length)) rest).2 := by
      simp only [layout, List.append_assoc]
      rfl
    have hdata : Bytes.slice offset data.length (pre ++ (layout offset ((ulType, data) :: rest)).2) =
        data := by
      rw [hshape, ← hpre, List.append_assoc, List.append_assoc]
      exact Bytes.slice_append pre data _
    have hrest := ih (blockLen_mod _) hnextAt
    rw [← hshape] at hrest
    rw [placed, List.map_cons, hdata, hrest]

end Placing

section Reading

def cBuffers (blob : Bytes) : Nat := Bytes.ofLe (Bytes.slice 0 4 blob)

def decodeRecord (record : Bytes) : UInt32 × Region :=
  (UInt32.ofNat (Bytes.ofLe (Bytes.slice 0 4 record)),
    ⟨Bytes.ofLe (Bytes.slice 8 8 record), Bytes.ofLe (Bytes.slice 4 4 record)⟩)

def records (blob : Bytes) : List (UInt32 × Region) :=
  (List.range (cBuffers blob)).map fun i => decodeRecord (Bytes.slice (8 + 16 * i) 16 blob)

def readPac (blob : Bytes) : List (UInt32 × Bytes) :=
  (records blob).map fun r => (r.1, Bytes.slice r.2.start r.2.size blob)

def narrowed (r : UInt32 × Region) : UInt32 × Region :=
  (r.1, ⟨r.2.start % 256 ^ 8, r.2.size % 256 ^ 4⟩)

theorem decodeRecord_encodeRecord (r : UInt32 × Region) :
    decodeRecord (encodeRecord r) = narrowed r := by
  have htype : Bytes.slice 0 4 (encodeRecord r) = Bytes.le 4 r.1.toNat := rfl
  have hsizeAt : Bytes.slice 4 4 (encodeRecord r) = Bytes.le 4 r.2.size := rfl
  have hstartAt : Bytes.slice 8 8 (encodeRecord r) = Bytes.le 8 r.2.start := rfl
  rw [decodeRecord, htype, hsizeAt, hstartAt, Bytes.ofNat_ofLe_le, Bytes.ofLe_le, Bytes.ofLe_le]
  rfl

theorem narrowed_eq {r : UInt32 × Region} (hsize : r.2.size < 2 ^ 32)
    (hstart : r.2.start < 2 ^ 64) : narrowed r = r := by
  have hsize' : r.2.size % 256 ^ 4 = r.2.size := Nat.mod_eq_of_lt hsize
  have hstart' : r.2.start % 256 ^ 8 = r.2.start := Nat.mod_eq_of_lt hstart
  rw [narrowed, hsize', hstart']

def headerLen (count : Nat) : Nat := 8 + 16 * count

def pacHeader (count : Nat) : Bytes := Bytes.le 4 count ++ Bytes.le 4 0

theorem headerLen_mod (count : Nat) : headerLen count % 8 = 0 := by
  unfold headerLen
  omega

variable (buffers : List (UInt32 × Bytes))

theorem buildPacType_eq : buildPacType buffers =
    pacHeader buffers.length ++ ((placed (headerLen buffers.length) buffers).flatMap encodeRecord ++
      (layout (headerLen buffers.length) buffers).2) := by
  rw [← layout_records]
  simp [buildPacType, pacHeader, headerLen]

theorem length_records :
    ((placed (headerLen buffers.length) buffers).flatMap encodeRecord).length =
      16 * buffers.length := by
  rw [length_flatMap_encodeRecord, length_placed]

theorem length_buildPacType : (buildPacType buffers).length =
    headerLen buffers.length + (layout (headerLen buffers.length) buffers).2.length := by
  have hheader : (pacHeader buffers.length).length = 8 := rfl
  rw [buildPacType_eq, List.length_append, List.length_append, length_records, hheader, headerLen]
  omega

theorem stop_le_length {r : UInt32 × Region}
    (hr : r ∈ placed (headerLen buffers.length) buffers) :
    r.2.stop ≤ (buildPacType buffers).length := by
  rw [length_buildPacType]
  exact (placed_bounds (headerLen_mod _) hr).2.2

variable {buffers}

theorem cBuffers_buildPacType (h : buffers.length < 2 ^ 32) :
    cBuffers (buildPacType buffers) = buffers.length := by
  have hcount : buffers.length < 256 ^ 4 := h
  rw [buildPacType_eq]
  exact Bytes.ofLe_le_of_lt hcount

theorem records_eq_narrowed (h : buffers.length < 2 ^ 32) :
    records (buildPacType buffers) =
      (placed (headerLen buffers.length) buffers).map narrowed := by
  have hslices := Bytes.map_slice_range (f := encodeRecord)
    (fun r (_ : r ∈ placed (headerLen buffers.length) buffers) => length_encodeRecord r)
    (pacHeader buffers.length) (layout (headerLen buffers.length) buffers).2
  rw [length_placed, ← buildPacType_eq] at hslices
  have hrecords : records (buildPacType buffers) = ((List.range buffers.length).map fun i =>
      Bytes.slice (8 + 16 * i) 16 (buildPacType buffers)).map decodeRecord := by
    rw [records, cBuffers_buildPacType h, List.map_map]
    rfl
  change (List.range buffers.length).map (fun i =>
    Bytes.slice (8 + 16 * i) 16 (buildPacType buffers)) = _ at hslices
  rw [hrecords, hslices, List.map_map]
  exact List.map_congr_left fun r _ => decodeRecord_encodeRecord r

theorem count_lt (h : (buildPacType buffers).length < 2 ^ 32) : buffers.length < 2 ^ 32 := by
  rw [length_buildPacType, headerLen] at h
  omega

theorem records_buildPacType (h : (buildPacType buffers).length < 2 ^ 32) :
    records (buildPacType buffers) = placed (headerLen buffers.length) buffers := by
  rw [records_eq_narrowed (count_lt h)]
  refine (List.map_congr_left fun r hr => ?_).trans (List.map_id _)
  have hstop := stop_le_length buffers hr
  unfold Region.stop at hstop
  exact narrowed_eq (by omega) (by omega)

/-- The records of an assembled PAC give back its buffers, and regions that are
aligned, disjoint, after the header and inside. -/
theorem pac_layout (h : (buildPacType buffers).length < 2 ^ 32) :
    readPac (buildPacType buffers) = buffers ∧
      (∀ r ∈ records (buildPacType buffers), r.2.start % 8 = 0 ∧
        headerLen (cBuffers (buildPacType buffers)) ≤ r.2.start ∧
        r.2.stop ≤ (buildPacType buffers).length) ∧
      (records (buildPacType buffers)).Pairwise fun r s => r.2.Disjoint s.2 := by
  have haligned := headerLen_mod buffers.length
  rw [readPac, records_buildPacType h, cBuffers_buildPacType (count_lt h)]
  refine ⟨?_, fun r hr => ?_, pairwise_placed haligned buffers⟩
  · have hdataAt : (pacHeader buffers.length ++ (placed (headerLen buffers.length) buffers).flatMap
        encodeRecord).length = headerLen buffers.length := by
      rw [List.length_append, length_records]
      rfl
    have hread := slice_placed haligned buffers hdataAt
    rw [List.append_assoc, ← buildPacType_eq] at hread
    exact hread
  · have hbounds := placed_bounds haligned hr
    exact ⟨hbounds.2.1, hbounds.1, stop_le_length buffers hr⟩

theorem pac_layout_sample :
    readPac (buildPacType [(1, [1, 1, 1, 1, 1]), (10, [2, 2, 2])]) =
        [(1, [1, 1, 1, 1, 1]), (10, [2, 2, 2])] ∧
      (∀ r ∈ records (buildPacType [(1, [1, 1, 1, 1, 1]), (10, [2, 2, 2])]), r.2.start % 8 = 0 ∧
        headerLen (cBuffers (buildPacType [(1, [1, 1, 1, 1, 1]), (10, [2, 2, 2])])) ≤ r.2.start ∧
        r.2.stop ≤ (buildPacType [(1, [1, 1, 1, 1, 1]), (10, [2, 2, 2])]).length) ∧
      (records (buildPacType [(1, [1, 1, 1, 1, 1]), (10, [2, 2, 2])])).Pairwise
        fun r s => r.2.Disjoint s.2 :=
  pac_layout (by decide)

end Reading

end IronDirectory.Kdc.Pac
