import IronDirectory.Defs.Kdc.PacLayout

namespace IronDirectory.Kdc.Pac

open Base Crypto

section Reading

def signatureRegion (ulType : UInt32) (pac : Bytes) : Option Region :=
  ((records pac).find? (·.1 == ulType)).map fun r => ⟨r.2.start + 4, r.2.size - 4⟩

def signature (ulType : UInt32) (pac : Bytes) : Option Bytes :=
  (signatureRegion ulType pac).map fun r => Bytes.slice r.start r.size pac

def zeroSignature (ulType : UInt32) (pac : Bytes) : Bytes :=
  match signatureRegion ulType pac with
  | some r => r.zero pac
  | none => pac

def zeroSignatures (pac : Bytes) : Bytes :=
  zeroSignature pacPrivsvrChecksum (zeroSignature pacServerChecksum pac)

end Reading

section Splitting

variable {offset : Nat} (pre post : List (UInt32 × Bytes))

def after (offset : Nat) (pre : List (UInt32 × Bytes)) : Nat :=
  offset + (layout offset pre).2.length

theorem after_cons (h : offset % 8 = 0) (buffer : UInt32 × Bytes) :
    after offset (buffer :: pre) = after (blockLen (offset + buffer.2.length)) pre := by
  have hpad := le_blockLen buffer.2.length
  simp only [after, layout, List.length_append, List.length_replicate, blockLen_add h]
  omega

theorem placed_append (h : offset % 8 = 0) :
    placed offset (pre ++ post) = placed offset pre ++ placed (after offset pre) post := by
  induction pre generalizing offset with
  | nil => rfl
  | cons buffer pre ih =>
    rw [after_cons pre h, List.cons_append, placed, placed, ih (blockLen_mod _)]
    rfl

theorem layout_append (h : offset % 8 = 0) : (layout offset (pre ++ post)).2 =
    (layout offset pre).2 ++ (layout (after offset pre) post).2 := by
  induction pre generalizing offset with
  | nil => rfl
  | cons buffer pre ih =>
    rw [after_cons pre h, List.cons_append, layout, layout, ih (blockLen_mod _)]
    simp only [List.append_assoc]

theorem map_fst_placed (offset : Nat) : (placed offset pre).map Prod.fst = pre.map Prod.fst := by
  induction pre generalizing offset with
  | nil => rfl
  | cons buffer pre ih => rw [placed, List.map_cons, List.map_cons, ih]

abbrev dataStart (count : Nat) (pre : List (UInt32 × Bytes)) : Nat := after (headerLen count) pre

theorem exists_around (ulType : UInt32) (n : Nat) :
    ∃ head tail, head.length = dataStart (pre.length + (post.length + 1)) pre ∧
      ∀ data : Bytes, data.length = n →
        buildPacType (pre ++ (ulType, data) :: post) = head ++ (data ++ tail) := by
  set count := pre.length + (post.length + 1)
  set start := dataStart count pre
  have haligned := headerLen_mod count
  refine ⟨pacHeader count ++ (((placed (headerLen count) pre ++ (ulType, ⟨start, n⟩) ::
      placed (blockLen (start + n)) post).flatMap encodeRecord) ++ (layout (headerLen count) pre).2),
    List.replicate (blockLen n - n) 0 ++ (layout (blockLen (start + n)) post).2, ?_, ?_⟩
  · have hheader : (pacHeader count).length = 8 := rfl
    have hrecords : (placed (headerLen count) pre ++ (ulType, ⟨start, n⟩) ::
        placed (blockLen (start + n)) post).length = count := by
      rw [List.length_append, List.length_cons, length_placed, length_placed]
    rw [List.length_append, List.length_append, hheader, length_flatMap_encodeRecord, hrecords]
    change _ = 8 + 16 * count + (layout (headerLen count) pre).2.length
    omega
  · rintro data rfl
    have hcount : (pre ++ (ulType, data) :: post).length = count := List.length_append
    rw [buildPacType_eq, hcount, placed_append _ _ haligned, layout_append _ _ haligned, placed, layout]
    simp only [List.append_assoc]
    rfl

theorem length_buildPacType_congr {ulType : UInt32} {data data' : Bytes}
    (h : data.length = data'.length) : (buildPacType (pre ++ (ulType, data) :: post)).length =
      (buildPacType (pre ++ (ulType, data') :: post)).length := by
  obtain ⟨head, tail, _, hsplit⟩ := exists_around pre post ulType data'.length
  rw [hsplit data h, hsplit data' rfl, List.length_append, List.length_append, List.length_append,
    List.length_append, h]

variable {pre} {ulType : UInt32}

theorem find_records (hpre : ulType ∉ pre.map Prod.fst) {data : Bytes}
    (hcount : (pre ++ (ulType, data) :: post).length < 2 ^ 32) (hdata : data.length < 2 ^ 32)
    (hfits : (buildPacType (pre ++ (ulType, data) :: post)).length < 2 ^ 64) :
    (records (buildPacType (pre ++ (ulType, data) :: post))).find? (·.1 == ulType) =
      some (ulType, ⟨dataStart (pre.length + (post.length + 1)) pre, data.length⟩) := by
  obtain ⟨head, tail, hhead, hsplit⟩ := exists_around pre post ulType data.length
  have hstart : dataStart (pre.length + (post.length + 1)) pre < 2 ^ 64 := by
    rw [hsplit data rfl, List.length_append] at hfits
    omega
  have hnone : ((placed (headerLen (pre.length + (post.length + 1))) pre).map narrowed).find?
      (·.1 == ulType) = none := by
    rw [List.find?_eq_none]
    intro r hr heq
    obtain ⟨placedAt, hmem, rfl⟩ := List.mem_map.mp hr
    apply hpre
    rw [← map_fst_placed pre (headerLen (pre.length + (post.length + 1))), ← beq_iff_eq.mp heq]
    exact List.mem_map.mpr ⟨placedAt, hmem, rfl⟩
  rw [records_eq_narrowed hcount, List.length_append, List.length_cons,
    placed_append _ _ (headerLen_mod _), List.map_append, List.find?_append, hnone, Option.none_or,
    placed, List.map_cons, narrowed_eq hdata hstart]
  exact List.find?_cons_of_pos (beq_self_eq_true ulType)

variable (hpre : ulType ∉ pre.map Prod.fst) {signatureType bytes : Bytes}
  (hcount : (pre ++ (ulType, signatureType ++ bytes) :: post).length < 2 ^ 32)
  (htype : signatureType.length = 4) (hbytes : bytes.length < 2 ^ 16)
  (hfits : (buildPacType (pre ++ (ulType, signatureType ++ bytes) :: post)).length < 2 ^ 64)

include hpre hcount htype hbytes hfits

theorem signatureRegion_buildPacType :
    signatureRegion ulType (buildPacType (pre ++ (ulType, signatureType ++ bytes) :: post)) =
      some ⟨dataStart (pre.length + (post.length + 1)) pre + 4, bytes.length⟩ := by
  have hlength : (signatureType ++ bytes).length = 4 + bytes.length := by
    rw [List.length_append, htype]
  have hfind := find_records post hpre hcount (by omega) hfits
  rw [hlength] at hfind
  rw [signatureRegion, hfind, Option.map_some, Nat.add_sub_cancel_left]

theorem signature_buildPacType :
    signature ulType (buildPacType (pre ++ (ulType, signatureType ++ bytes) :: post)) =
      some bytes := by
  obtain ⟨head, tail, hhead, hsplit⟩ :=
    exists_around pre post ulType (signatureType ++ bytes).length
  have hslice := Bytes.slice_append (head ++ signatureType) bytes tail
  rw [List.length_append, hhead, htype, List.append_assoc, ← List.append_assoc signatureType,
    ← hsplit _ rfl] at hslice
  rw [signature, signatureRegion_buildPacType post hpre hcount htype hbytes hfits, Option.map_some,
    hslice]

theorem zeroSignature_buildPacType :
    zeroSignature ulType (buildPacType (pre ++ (ulType, signatureType ++ bytes) :: post)) =
      buildPacType (pre ++ (ulType, signatureType ++ List.replicate bytes.length 0) :: post) := by
  obtain ⟨head, tail, hhead, hsplit⟩ :=
    exists_around pre post ulType (signatureType ++ bytes).length
  have hzero := Region.zero_append (head ++ signatureType) bytes tail
  rw [List.length_append, hhead, htype, List.append_assoc, ← List.append_assoc signatureType,
    ← hsplit _ rfl, List.append_assoc head, ← List.append_assoc signatureType,
    ← hsplit _ (by simp)] at hzero
  rw [zeroSignature, signatureRegion_buildPacType post hpre hcount htype hbytes hfits]
  exact hzero

end Splitting

section Signing

variable (input : PacInput) (serverEnctype kdcEnctype : Enctype) (s k : Bytes)

def blobToChecksum : Bytes :=
  buildPacType (buffers input serverEnctype kdcEnctype
    (List.replicate serverEnctype.hmacLen 0) (List.replicate kdcEnctype.hmacLen 0))

theorem hmacLen_lt (e : Enctype) : e.hmacLen < 2 ^ 16 := by
  cases e <;> decide

def unsignedBuffers : List (UInt32 × Bytes) :=
  [(pacLogonInfo, wrapTypeSerialization1 (kerbValidationInfo input)),
    (pacClientInfoType, pacClientInfo input.authTimeUnixSecs input.accountName)]

def checksumBuffer (ulType : UInt32) (e : Enctype) (signature : Bytes) : UInt32 × Bytes :=
  (ulType, Bytes.le 4 (pacChecksumType e).toUInt32.toNat ++ signature)

theorem buffers_eq_kdc : buffers input serverEnctype kdcEnctype s k =
    (unsignedBuffers input ++ [checksumBuffer pacServerChecksum serverEnctype s]) ++
      checksumBuffer pacPrivsvrChecksum kdcEnctype k :: [] := rfl

theorem length_buffers : (buffers input serverEnctype kdcEnctype s k).length < 2 ^ 32 := by
  change 4 < 2 ^ 32
  decide

theorem server_not_mem : pacServerChecksum ∉ (unsignedBuffers input).map Prod.fst := by
  change pacServerChecksum ∉ [pacLogonInfo, pacClientInfoType]
  decide

theorem kdc_not_mem : pacPrivsvrChecksum ∉ (unsignedBuffers input ++
    [checksumBuffer pacServerChecksum serverEnctype s]).map Prod.fst := by
  change pacPrivsvrChecksum ∉ [pacLogonInfo, pacClientInfoType, pacServerChecksum]
  decide

variable {input serverEnctype kdcEnctype s k} (hs : s.length < 2 ^ 16) (hk : k.length < 2 ^ 16)
  (hfits : (buildPacType (buffers input serverEnctype kdcEnctype s k)).length < 2 ^ 64)

include hfits

include hs in
theorem signature_server :
    signature pacServerChecksum (buildPacType (buffers input serverEnctype kdcEnctype s k)) =
      some s :=
  signature_buildPacType _ (server_not_mem input)
    (length_buffers input serverEnctype kdcEnctype s k) rfl hs hfits

include hk in
theorem signature_kdc :
    signature pacPrivsvrChecksum (buildPacType (buffers input serverEnctype kdcEnctype s k)) =
      some k := by
  have hcount := length_buffers input serverEnctype kdcEnctype s k
  rw [buffers_eq_kdc] at hcount hfits ⊢
  exact signature_buildPacType _ (kdc_not_mem input serverEnctype s) hcount rfl hk hfits

include hs hk in
theorem zeroSignatures_buffers :
    zeroSignatures (buildPacType (buffers input serverEnctype kdcEnctype s k)) =
      buildPacType (buffers input serverEnctype kdcEnctype (List.replicate s.length 0)
        (List.replicate k.length 0)) := by
  have hserver : zeroSignature pacServerChecksum
      (buildPacType (buffers input serverEnctype kdcEnctype s k)) =
        buildPacType (buffers input serverEnctype kdcEnctype (List.replicate s.length 0) k) :=
    zeroSignature_buildPacType _ (server_not_mem input)
      (length_buffers input serverEnctype kdcEnctype s k) rfl hs hfits
  have hlength : (buildPacType (buffers input serverEnctype kdcEnctype
      (List.replicate s.length 0) k)).length < 2 ^ 64 := by
    have hsame : (checksumBuffer pacServerChecksum serverEnctype
        (List.replicate s.length 0)).2.length =
          (checksumBuffer pacServerChecksum serverEnctype s).2.length := by
      simp only [checksumBuffer, List.length_append, List.length_replicate]
    exact lt_of_eq_of_lt (length_buildPacType_congr (unsignedBuffers input)
      [checksumBuffer pacPrivsvrChecksum kdcEnctype k] hsame) hfits
  have hcount := length_buffers input serverEnctype kdcEnctype (List.replicate s.length 0) k
  rw [zeroSignatures, hserver]
  rw [buffers_eq_kdc] at hcount hlength ⊢
  exact zeroSignature_buildPacType _ (kdc_not_mem input serverEnctype _) hcount rfl hk hlength

end Signing

/-- In a PAC the KDC makes, the table leads to two signatures: the server's is
the checksum of the PAC with zeros for both, and the KDC's is the checksum of
the server's.  No byte string in memory has `2 ^ 64` bytes. -/
theorem signatures_verify {c : Cipher}
    (hlen : ∀ {e k u d s}, c.checksum e k u d = .ok s → s.length = e.hmacLen)
    {input : PacInput} {serverKey kdcKey pac : Bytes} {serverEnctype kdcEnctype : Enctype}
    (h : generate c input serverKey serverEnctype kdcKey kdcEnctype = .ok pac)
    (hfits : pac.length < 2 ^ 64) :
    ∃ serverSignature kdcSignature,
      signature pacServerChecksum pac = some serverSignature ∧
      signature pacPrivsvrChecksum pac = some kdcSignature ∧
      zeroSignatures pac = blobToChecksum input serverEnctype kdcEnctype ∧
      c.checksum serverEnctype serverKey pacSignatureKeyUsage (zeroSignatures pac) =
        .ok serverSignature ∧
      c.checksum kdcEnctype kdcKey pacSignatureKeyUsage serverSignature = .ok kdcSignature := by
  simp only [generate, Outcome.bind_eq_ok, Outcome.pure_eq_ok] at h
  obtain ⟨s, hs, k, hk, rfl⟩ := h
  have hs16 : s.length < 2 ^ 16 := by
    rw [hlen hs]
    exact hmacLen_lt serverEnctype
  have hk16 : k.length < 2 ^ 16 := by
    rw [hlen hk]
    exact hmacLen_lt kdcEnctype
  have hzero := zeroSignatures_buffers hs16 hk16 hfits
  rw [hlen hs, hlen hk] at hzero
  refine ⟨s, k, signature_server hs16 hfits, signature_kdc hk16 hfits, hzero, ?_, hk⟩
  rw [hzero]
  exact hs

def lengthSum : Cipher :=
  { Cipher.ideal with
    checksum := fun e _ _ data => .ok (List.replicate e.hmacLen (UInt8.ofNat data.length)) }

def samplePac : PacInput :=
  ⟨.new 5 [21, 1, 2, 3, 1104], .new 5 [21, 1, 2, 3], [513], "bob", "G8", 0⟩

def sampleSigned : Bytes :=
  buildPacType (buffers samplePac .aes128CtsHmacSha1_96 .aes256CtsHmacSha384_192
    (List.replicate 12 (UInt8.ofNat (blobToChecksum samplePac .aes128CtsHmacSha1_96
      .aes256CtsHmacSha384_192).length)) (List.replicate 24 12))

theorem generate_samplePac :
    generate lengthSum samplePac [1] .aes128CtsHmacSha1_96 [2] .aes256CtsHmacSha384_192 =
      .ok sampleSigned := rfl

theorem signatures_verify_sample :
    ∃ serverSignature kdcSignature,
      signature pacServerChecksum sampleSigned = some serverSignature ∧
      signature pacPrivsvrChecksum sampleSigned = some kdcSignature ∧
      zeroSignatures sampleSigned =
        blobToChecksum samplePac .aes128CtsHmacSha1_96 .aes256CtsHmacSha384_192 ∧
      lengthSum.checksum .aes128CtsHmacSha1_96 [1] pacSignatureKeyUsage
        (zeroSignatures sampleSigned) = .ok serverSignature ∧
      lengthSum.checksum .aes256CtsHmacSha384_192 [2] pacSignatureKeyUsage serverSignature =
        .ok kdcSignature := by
  refine signatures_verify ?_ generate_samplePac (by decide +kernel)
  intro e k u d s h
  cases h
  exact List.length_replicate

end IronDirectory.Kdc.Pac
