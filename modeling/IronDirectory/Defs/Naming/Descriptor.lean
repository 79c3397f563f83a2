import IronDirectory.Defs.Base.Regions
import IronDirectory.Defs.Naming.SidLaws

namespace IronDirectory.Naming.SecurityDescriptor

open Base Outcome

structure DecodedAce where
  mask : Nat
  trustee : Sid
  deriving DecidableEq

structure DecodedDescriptor where
  owner : Sid
  group : Sid
  dacl : List DecodedAce
  deriving DecidableEq

def decodeSidAt (bytes : Bytes) (offset : Nat) : Except Halt Sid := do
  let header ← Checked.get bytes offset 2
  let count ← Checked.index header 1 1
  let body ← Checked.get bytes offset (8 + 4 * Bytes.ofLe count)
  require (Sid.decode body) .none

def decodeAces (bytes : Bytes) : Nat → Nat → Except Halt (List DecodedAce)
  | 0, _ => .ok []
  | aceCount + 1, pos => do
    let aceHeader ← Checked.get bytes pos 4
    let aceSize ← Checked.index aceHeader 2 2
    let maskAt ← Checked.add pos 4
    let mask ← Checked.get bytes maskAt 4
    let trusteeAt ← Checked.add pos 8
    let trustee ← decodeSidAt bytes trusteeAt
    let next ← Checked.add pos (Bytes.ofLe aceSize)
    let aces ← decodeAces bytes aceCount next
    return ⟨Bytes.ofLe mask, trustee⟩ :: aces

def decodeDaclAt (bytes : Bytes) (offset : Nat) : Except Halt (List DecodedAce) := do
  let header ← Checked.get bytes offset 8
  let aceCount ← Checked.index header 4 2
  let pos ← Checked.add offset 8
  decodeAces bytes (Bytes.ofLe aceCount) pos

def presentDacl (bytes : Bytes) (control offsetDacl : Nat) : Except Halt (List DecodedAce) :=
  if control &&& seDaclPresent ≠ 0 ∧ offsetDacl ≠ 0 then decodeDaclAt bytes offsetDacl else .ok []

def decode (bytes : Bytes) : Except Halt DecodedDescriptor := do
  ensure (headerLen ≤ bytes.length) .none
  let control ← Checked.index bytes 2 2
  ensure (Bytes.ofLe control &&& seSelfRelative ≠ 0) .none
  let offsetOwner ← Checked.index bytes 4 4
  let offsetGroup ← Checked.index bytes 8 4
  let offsetDacl ← Checked.index bytes 16 4
  let owner ← decodeSidAt bytes (Bytes.ofLe offsetOwner)
  let group ← decodeSidAt bytes (Bytes.ofLe offsetGroup)
  let dacl ← presentDacl bytes (Bytes.ofLe control) (Bytes.ofLe offsetDacl)
  return ⟨owner, group, dacl⟩

section Bounds

open Checked

theorem noPanic_decodeSidAt (bytes : Bytes) {offset : Nat} (h : offset + 1028 < 2 ^ 64) :
    NoPanic (decodeSidAt bytes offset) := by
  refine noPanic_bind (noPanic_get bytes (by omega)) fun header hheader => ?_
  have hlen := length_of_get hheader
  refine noPanic_bind (noPanic_index (by omega)) fun count hcount => ?_
  have hlt := ofLe_lt_of_index hcount
  refine noPanic_bind (noPanic_get bytes (by omega)) fun body _ => ?_
  exact errors_require nofun

-- each entry moves the position by less than 2 ^ 16
theorem noPanic_decodeAces (bytes : Bytes) {aceCount pos : Nat}
    (h : pos + aceCount * 2 ^ 16 + 2048 < 2 ^ 64) : NoPanic (decodeAces bytes aceCount pos) := by
  induction aceCount generalizing pos with
  | zero => exact errors_ok _
  | succ aceCount ih =>
    refine noPanic_bind (noPanic_get bytes (by omega)) fun aceHeader hheader => ?_
    have hlen := length_of_get hheader
    refine noPanic_bind (noPanic_index (by omega)) fun aceSize hsize => ?_
    have hlt := ofLe_lt_of_index hsize
    have hmask : pos + 4 < 2 ^ 64 := by omega
    have htrustee : pos + 8 < 2 ^ 64 := by omega
    have hnext : pos + Bytes.ofLe aceSize < 2 ^ 64 := by omega
    simp only [add_eq_ok hmask, add_eq_ok htrustee, add_eq_ok hnext, ok_bind]
    refine noPanic_bind (noPanic_get bytes (by omega)) fun mask _ => ?_
    refine noPanic_bind (noPanic_decodeSidAt bytes (by omega)) fun trustee _ => ?_
    refine noPanic_bind (ih (by omega)) fun aces _ => ?_
    exact errors_pure _

theorem noPanic_decodeDaclAt (bytes : Bytes) {offset : Nat} (h : offset < 2 ^ 32) :
    NoPanic (decodeDaclAt bytes offset) := by
  refine noPanic_bind (noPanic_get bytes (by omega)) fun header hheader => ?_
  have hlen := length_of_get hheader
  refine noPanic_bind (noPanic_index (by omega)) fun aceCount hcount => ?_
  have hlt := ofLe_lt_of_index hcount
  have hpos : offset + 8 < 2 ^ 64 := by omega
  rw [add_eq_ok hpos, ok_bind]
  exact noPanic_decodeAces bytes (by omega)

theorem noPanic_decode (bytes : Bytes) : NoPanic (decode bytes) := by
  refine noPanic_bind (errors_ensure nofun) fun _ hheader => ?_
  have hlen : 20 ≤ bytes.length := ensure_eq_ok.mp hheader
  refine noPanic_bind (noPanic_index (by omega)) fun control _ => ?_
  refine noPanic_bind (errors_ensure nofun) fun _ _ => ?_
  refine noPanic_bind (noPanic_index (by omega)) fun offsetOwner howner => ?_
  refine noPanic_bind (noPanic_index (by omega)) fun offsetGroup hgroup => ?_
  refine noPanic_bind (noPanic_index (by omega)) fun offsetDacl hdacl => ?_
  have hownerLt := ofLe_lt_of_index howner
  have hgroupLt := ofLe_lt_of_index hgroup
  have hdaclLt := ofLe_lt_of_index hdacl
  refine noPanic_bind (noPanic_decodeSidAt bytes (by omega)) fun owner _ => ?_
  refine noPanic_bind (noPanic_decodeSidAt bytes (by omega)) fun group _ => ?_
  refine noPanic_bind ?_ fun dacl _ => errors_pure _
  unfold presentDacl
  split
  · exact noPanic_decodeDaclAt bytes (by omega)
  · exact errors_ok _

end Bounds

section ReadBack

open Checked

def Fits (x : Sid) : Prop := x.authority.toNat < 2 ^ 48 ∧ x.subAuthorities.length < 256

theorem Fits.length_encode_le {x : Sid} (h : Fits x) : x.encode.length ≤ 1028 := by
  have hcount := h.2
  rw [Sid.length_encode]
  omega

theorem decodeSidAt_append {x : Sid} (hx : Fits x) {bytes pre post : Bytes} {offset : Nat}
    (h : bytes = pre ++ (x.encode ++ post)) (hoffset : pre.length = offset)
    (hlt : offset + 1028 < 2 ^ 64) : decodeSidAt bytes offset = .ok x := by
  have hle := hx.length_encode_le
  have hcount : Bytes.ofLe [UInt8.ofNat x.subAuthorities.length] = x.subAuthorities.length := by
    simp [UInt8.toNat_ofNat_of_lt' hx.2]
  have hheader : get bytes offset 2 = .ok [x.revision, UInt8.ofNat x.subAuthorities.length] :=
    get_append h hoffset rfl (by omega)
  have hbody : get bytes offset (8 + 4 * x.subAuthorities.length) = .ok x.encode :=
    get_append h hoffset (Sid.length_encode x) (by rw [Sid.length_encode] at hle; omega)
  rw [decodeSidAt, hheader, ok_bind, index_eq_ok (by simp), ok_bind]
  change (get bytes offset (8 + 4 * Bytes.ofLe [UInt8.ofNat x.subAuthorities.length]) >>= _) = _
  rw [hcount, hbody, ok_bind, (Sid.decode_encode_iff x).mpr hx, require_some]

def aceHeader (trustee : Sid) : Bytes :=
  accessAllowedAceType :: 0 :: Bytes.le 2 (8 + trustee.encode.length)

theorem buildAce_eq (mask : Nat) (trustee : Sid) :
    buildAce mask trustee = aceHeader trustee ++ (Bytes.le 4 mask ++ trustee.encode) := by
  simp [buildAce, aceHeader]

theorem length_buildAce (mask : Nat) (trustee : Sid) :
    (buildAce mask trustee).length = 8 + trustee.encode.length := by
  simp [buildAce_eq, aceHeader]
  omega

theorem decodeAces_append {aces : List (Nat × Sid)}
    (haces : ∀ ace ∈ aces, ace.1 < 2 ^ 32 ∧ Fits ace.2) {bytes pre post : Bytes} {pos : Nat}
    (h : bytes = pre ++ ((aces.map fun ace => buildAce ace.1 ace.2).flatten ++ post))
    (hpos : pre.length = pos) (hlt : pos + aces.length * 2 ^ 16 + 2048 < 2 ^ 64) :
    decodeAces bytes aces.length pos = .ok (aces.map fun ace => ⟨ace.1, ace.2⟩) := by
  induction aces generalizing pre pos with
  | nil => rfl
  | cons ace aces ih =>
    obtain ⟨mask, trustee⟩ := ace
    have hace : mask < 2 ^ 32 ∧ Fits trustee := haces (mask, trustee) List.mem_cons_self
    have hle : trustee.encode.length ≤ 1028 := hace.2.length_encode_le
    rw [List.length_cons] at hlt
    rw [List.map_cons, List.flatten_cons, List.append_assoc] at h
    have hparts := h
    rw [buildAce_eq, List.append_assoc, List.append_assoc] at hparts
    have hheader : get bytes pos 4 = .ok (aceHeader trustee) :=
      get_append hparts hpos rfl (by omega)
    have hsize : index (aceHeader trustee) 2 2 = .ok (Bytes.le 2 (8 + trustee.encode.length)) := rfl
    have hvalue : Bytes.ofLe (Bytes.le 2 (8 + trustee.encode.length)) = 8 + trustee.encode.length :=
      Bytes.ofLe_le_of_lt (by omega)
    rw [← List.append_assoc] at hparts
    have hmaskAt : (pre ++ aceHeader trustee).length = pos + 4 := by
      rw [List.length_append, hpos]
      rfl
    have hmask : get bytes (pos + 4) 4 = .ok (Bytes.le 4 mask) :=
      get_append hparts hmaskAt rfl (by omega)
    rw [← List.append_assoc] at hparts
    have htrusteeAt : (pre ++ aceHeader trustee ++ Bytes.le 4 mask).length = pos + 8 := by
      rw [List.length_append, hmaskAt]
      rfl
    have htrustee : decodeSidAt bytes (pos + 8) = .ok trustee :=
      decodeSidAt_append hace.2 hparts htrusteeAt (by omega)
    rw [← List.append_assoc] at h
    have hnextAt : (pre ++ buildAce mask trustee).length = pos + (8 + trustee.encode.length) := by
      rw [List.length_append, hpos, length_buildAce]
    have hnext := ih (fun ace hmem => haces ace (List.mem_cons_of_mem _ hmem)) h hnextAt (by omega)
    rw [List.length_cons, decodeAces, hheader, ok_bind, hsize, ok_bind,
      add_eq_ok (by omega), ok_bind, hmask, ok_bind, add_eq_ok (by omega), ok_bind, htrustee,
      ok_bind, hvalue, add_eq_ok (by omega), ok_bind, hnext, ok_bind,
      Bytes.ofLe_le_of_lt hace.1]
    rfl

theorem decodeDaclAt_append {aces : List (Nat × Sid)}
    (haces : ∀ ace ∈ aces, ace.1 < 2 ^ 32 ∧ Fits ace.2) (hcount : aces.length < 2 ^ 16)
    {bytes pre post : Bytes} {offset : Nat} (h : bytes = pre ++ (buildDacl aces ++ post))
    (hoffset : pre.length = offset) (hlt : offset < 2 ^ 32) :
    decodeDaclAt bytes offset = .ok (aces.map fun ace => ⟨ace.1, ace.2⟩) := by
  set bodies := aces.map fun ace => buildAce ace.1 ace.2 with hbodies
  set header : Bytes := 2 :: 0 :: Bytes.le 2 (8 + bodies.flatten.length) ++
    Bytes.le 2 aces.length ++ Bytes.le 2 0 with hheaderDef
  have hparts : bytes = pre ++ (header ++ (bodies.flatten ++ post)) := by
    rw [h, buildDacl, ← hbodies]
    simp [hheaderDef]
  have hheader : get bytes offset 8 = .ok header := get_append hparts hoffset rfl (by omega)
  have hindex : index header 4 2 = .ok (Bytes.le 2 aces.length) := rfl
  rw [← List.append_assoc] at hparts
  have haceAt : (pre ++ header).length = offset + 8 := by
    rw [List.length_append, hoffset]
    rfl
  rw [decodeDaclAt, hheader, ok_bind, hindex, ok_bind, add_eq_ok (by omega), ok_bind,
    Bytes.ofLe_le_of_lt hcount]
  exact decodeAces_append haces hparts haceAt (by omega)

end ReadBack

section Default

open Checked

def defaultAces (domainSid : Sid) : List (Nat × Sid) :=
  [(genericAll, domainSid.withSubAuthority 512), (genericRead, authenticatedUsers)]

def descriptorHeader (offsetOwner offsetGroup : Nat) : Bytes :=
  1 :: 0 :: Bytes.le 2 (seDaclPresent + seSelfRelative) ++ Bytes.le 4 offsetOwner ++
    Bytes.le 4 offsetGroup ++ Bytes.le 4 0 ++ Bytes.le 4 headerLen

variable {domainSid : Sid}

theorem fits_withSubAuthority (hcount : domainSid.subAuthorities.length ≤ 254)
    (hauthority : domainSid.authority.toNat < 2 ^ 48) (rid : UInt32) :
    Fits (domainSid.withSubAuthority rid) := by
  refine ⟨hauthority, ?_⟩
  simp only [Sid.withSubAuthority, List.length_append, List.length_singleton]
  omega

theorem length_buildDacl (aces : List (Nat × Sid)) :
    (buildDacl aces).length = 8 + (aces.map fun ace => buildAce ace.1 ace.2).flatten.length := by
  simp [buildDacl]
  omega

theorem length_defaultDacl : (buildDacl (defaultAces domainSid)).length =
    16 + (domainSid.withSubAuthority 512).encode.length + 20 := by
  have husers : authenticatedUsers.encode.length = 12 := rfl
  simp [length_buildDacl, defaultAces, length_buildAce, husers]
  omega

def ownerAt (domainSid : Sid) : Nat := headerLen + (buildDacl (defaultAces domainSid)).length

def groupAt (domainSid : Sid) : Nat :=
  ownerAt domainSid + (domainSid.withSubAuthority 512).encode.length

theorem defaultDescriptor_eq (domainSid : Sid) :
    defaultDescriptor domainSid =
      descriptorHeader (ownerAt domainSid) (groupAt domainSid) ++
        (buildDacl (defaultAces domainSid) ++ ((domainSid.withSubAuthority 512).encode ++
          (domainSid.withSubAuthority 512).encode)) := by
  simp [defaultDescriptor, descriptorHeader, defaultAces, ownerAt, groupAt]

theorem index_descriptorHeader (offsetOwner offsetGroup : Nat) (rest : Bytes) :
    index (descriptorHeader offsetOwner offsetGroup ++ rest) 2 2 =
        .ok (Bytes.le 2 (seDaclPresent + seSelfRelative)) ∧
      index (descriptorHeader offsetOwner offsetGroup ++ rest) 4 4 =
        .ok (Bytes.le 4 offsetOwner) ∧
      index (descriptorHeader offsetOwner offsetGroup ++ rest) 8 4 =
        .ok (Bytes.le 4 offsetGroup) ∧
      index (descriptorHeader offsetOwner offsetGroup ++ rest) 16 4 =
        .ok (Bytes.le 4 headerLen) := by
  have hlen : 20 ≤ (descriptorHeader offsetOwner offsetGroup ++ rest).length := by
    rw [List.length_append]
    exact Nat.le_add_right 20 rest.length
  exact ⟨index_eq_ok (by omega), index_eq_ok (by omega), index_eq_ok (by omega),
    index_eq_ok (by omega)⟩

def At (bytes piece : Bytes) (offset : Nat) : Prop :=
  ∃ pre post, bytes = pre ++ (piece ++ post) ∧ pre.length = offset

theorem dacl_at (domainSid : Sid) :
    At (defaultDescriptor domainSid) (buildDacl (defaultAces domainSid)) headerLen :=
  ⟨_, _, defaultDescriptor_eq domainSid, rfl⟩

theorem owner_at (domainSid : Sid) : At (defaultDescriptor domainSid)
    (domainSid.withSubAuthority 512).encode (ownerAt domainSid) := by
  refine ⟨descriptorHeader (ownerAt domainSid) (groupAt domainSid) ++
    buildDacl (defaultAces domainSid), (domainSid.withSubAuthority 512).encode, ?_, ?_⟩
  · rw [defaultDescriptor_eq, List.append_assoc]
  · exact List.length_append

theorem group_at (domainSid : Sid) : At (defaultDescriptor domainSid)
    (domainSid.withSubAuthority 512).encode (groupAt domainSid) := by
  refine ⟨descriptorHeader (ownerAt domainSid) (groupAt domainSid) ++
    buildDacl (defaultAces domainSid) ++ (domainSid.withSubAuthority 512).encode, [], ?_, ?_⟩
  · rw [defaultDescriptor_eq, List.append_nil, List.append_assoc, List.append_assoc]
  · rw [List.length_append, List.length_append]
    rfl

theorem length_defaultDescriptor (domainSid : Sid) : (defaultDescriptor domainSid).length =
    groupAt domainSid + (domainSid.withSubAuthority 512).encode.length := by
  have hheader : (descriptorHeader (ownerAt domainSid) (groupAt domainSid)).length = headerLen := rfl
  rw [defaultDescriptor_eq]
  simp only [List.length_append, hheader]
  rw [groupAt, ownerAt]
  omega

theorem groupAt_lt (hcount : domainSid.subAuthorities.length ≤ 254)
    (hauthority : domainSid.authority.toNat < 2 ^ 48) : groupAt domainSid < 4096 := by
  have hle := (fits_withSubAuthority hcount hauthority 512).length_encode_le
  rw [groupAt, ownerAt, length_defaultDacl]
  have hheader : headerLen = 20 := rfl
  omega

theorem ownerAt_le (domainSid : Sid) : ownerAt domainSid ≤ groupAt domainSid :=
  Nat.le_add_right _ _

theorem fits_defaultAces (hcount : domainSid.subAuthorities.length ≤ 254)
    (hauthority : domainSid.authority.toNat < 2 ^ 48) :
    ∀ ace ∈ defaultAces domainSid, ace.1 < 2 ^ 32 ∧ Fits ace.2 := by
  intro ace hace
  simp only [defaultAces, List.mem_cons, List.not_mem_nil, or_false] at hace
  rcases hace with rfl | rfl
  · exact ⟨show genericAll < 2 ^ 32 by decide, fits_withSubAuthority hcount hauthority 512⟩
  · exact ⟨by decide, by decide, by decide⟩

theorem decode_defaultDescriptor (hcount : domainSid.subAuthorities.length ≤ 254)
    (hauthority : domainSid.authority.toNat < 2 ^ 48) :
    decode (defaultDescriptor domainSid) =
      .ok ⟨domainSid.withSubAuthority 512, domainSid.withSubAuthority 512,
        (defaultAces domainSid).map fun ace => ⟨ace.1, ace.2⟩⟩ := by
  have hfits := fits_withSubAuthority hcount hauthority 512
  have hgroupLt := groupAt_lt hcount hauthority
  have hownerLe := ownerAt_le domainSid
  have hlength : headerLen ≤ (defaultDescriptor domainSid).length := by
    rw [length_defaultDescriptor, groupAt, ownerAt]
    omega
  obtain ⟨hcontrol, howner, hgroup, hdacl⟩ := index_descriptorHeader (ownerAt domainSid)
    (groupAt domainSid) (buildDacl (defaultAces domainSid) ++
      ((domainSid.withSubAuthority 512).encode ++ (domainSid.withSubAuthority 512).encode))
  obtain ⟨_, _, hdaclAt, hdaclPre⟩ := dacl_at domainSid
  obtain ⟨_, _, hownerAt, hownerPre⟩ := owner_at domainSid
  obtain ⟨_, _, hgroupAt, hgroupPre⟩ := group_at domainSid
  have hdaclRead : presentDacl (defaultDescriptor domainSid)
      (Bytes.ofLe (Bytes.le 2 (seDaclPresent + seSelfRelative)))
      (Bytes.ofLe (Bytes.le 4 headerLen)) =
        .ok ((defaultAces domainSid).map fun ace => ⟨ace.1, ace.2⟩) :=
    decodeDaclAt_append (fits_defaultAces hcount hauthority) (show 2 < 2 ^ 16 by decide) hdaclAt
      hdaclPre (by decide)
  have hownerRead := decodeSidAt_append hfits hownerAt hownerPre (by omega)
  have hgroupRead := decodeSidAt_append hfits hgroupAt hgroupPre (by omega)
  rw [← defaultDescriptor_eq] at hcontrol howner hgroup hdacl
  rw [decode, ensure, if_pos hlength, ok_bind, hcontrol, ok_bind, ensure, if_pos (by decide),
    ok_bind, howner, ok_bind, hgroup, ok_bind, hdacl, ok_bind, Bytes.ofLe_le_of_lt (by omega),
    hownerRead, ok_bind, Bytes.ofLe_le_of_lt (by omega), hgroupRead, ok_bind, hdaclRead, ok_bind]
  rfl

def field (start width : Nat) (bytes : Bytes) : Nat := Bytes.ofLe (Bytes.slice start width bytes)

def sidSize (offset : Nat) (bytes : Bytes) : Nat := 8 + 4 * field (offset + 1) 1 bytes

def regions (bytes : Bytes) : List Region :=
  let offsetOwner := field 4 4 bytes
  let offsetGroup := field 8 4 bytes
  let offsetDacl := field 16 4 bytes
  [⟨0, headerLen⟩, ⟨offsetDacl, field (offsetDacl + 2) 2 bytes⟩,
    ⟨offsetOwner, sidSize offsetOwner bytes⟩, ⟨offsetGroup, sidSize offsetGroup bytes⟩]

theorem sidSize_of_at {bytes : Bytes} {x : Sid} {offset : Nat} (hx : Fits x)
    (h : At bytes x.encode offset) : sidSize offset bytes = x.encode.length := by
  obtain ⟨pre, post, rfl, rfl⟩ := h
  have hcount : Bytes.slice (pre.length + 1) 1 (pre ++ (x.encode ++ post)) =
      [UInt8.ofNat x.subAuthorities.length] := by
    rw [Bytes.slice, ← List.drop_drop, List.drop_left]
    rfl
  rw [sidSize, field, hcount, Sid.length_encode]
  simp [UInt8.toNat_ofNat_of_lt' hx.2]

theorem tiles_defaultDescriptor (hcount : domainSid.subAuthorities.length ≤ 254)
    (hauthority : domainSid.authority.toNat < 2 ^ 48) :
    Region.Tiles 0 (defaultDescriptor domainSid).length
      (regions (defaultDescriptor domainSid)) := by
  have hfits := fits_withSubAuthority hcount hauthority 512
  have hgroupLt := groupAt_lt hcount hauthority
  have hownerLe := ownerAt_le domainSid
  have hdacl : field 16 4 (defaultDescriptor domainSid) = headerLen := by
    rw [defaultDescriptor_eq]
    rfl
  have howner : field 4 4 (defaultDescriptor domainSid) = ownerAt domainSid := by
    rw [defaultDescriptor_eq]
    exact Bytes.ofLe_le_of_lt (show ownerAt domainSid < 256 ^ 4 by omega)
  have hgroup : field 8 4 (defaultDescriptor domainSid) = groupAt domainSid := by
    rw [defaultDescriptor_eq]
    exact Bytes.ofLe_le_of_lt (show groupAt domainSid < 256 ^ 4 by omega)
  have hsize : field (headerLen + 2) 2 (defaultDescriptor domainSid) =
      (buildDacl (defaultAces domainSid)).length := by
    have hlt : (buildDacl (defaultAces domainSid)).length < 256 ^ 2 := by
      have hle : (buildDacl (defaultAces domainSid)).length ≤ ownerAt domainSid :=
        Nat.le_add_left _ _
      omega
    rw [length_buildDacl] at hlt ⊢
    rw [defaultDescriptor_eq]
    exact Bytes.ofLe_le_of_lt hlt
  simp only [regions, hdacl, howner, hgroup, hsize, sidSize_of_at hfits (owner_at domainSid),
    sidSize_of_at hfits (group_at domainSid)]
  refine ⟨rfl, rfl, rfl, rfl, ?_⟩
  exact (length_defaultDescriptor domainSid).symm

/-- The default descriptor of a domain whose identifiers fit their bytes is read
back as it was meant, its offsets tile it, and reading any bytes at all stays in
bounds. -/
theorem descriptor_layout (hcount : domainSid.subAuthorities.length ≤ 254)
    (hauthority : domainSid.authority.toNat < 2 ^ 48) (bytes : Bytes) :
    decode (defaultDescriptor domainSid) =
        .ok ⟨domainSid.withSubAuthority 512, domainSid.withSubAuthority 512,
          [⟨genericAll, domainSid.withSubAuthority 512⟩, ⟨genericRead, authenticatedUsers⟩]⟩ ∧
      (regions (defaultDescriptor domainSid)).Pairwise Region.Disjoint ∧
      (∀ i, (∃ r ∈ regions (defaultDescriptor domainSid), r.Holds i) ↔
        i < (defaultDescriptor domainSid).length) ∧
      decode bytes ≠ .error .panic := by
  have htiles := tiles_defaultDescriptor hcount hauthority
  refine ⟨decode_defaultDescriptor hcount hauthority, htiles.pairwise, fun i => ?_, ?_⟩
  · rw [htiles.holds_iff]
    simp
  · intro h
    exact noPanic_decode bytes .panic h rfl

theorem descriptor_layout_sample :
    decode (defaultDescriptor ⟨1, 5, [21, 1, 2, 3]⟩) =
        .ok ⟨⟨1, 5, [21, 1, 2, 3, 512]⟩, ⟨1, 5, [21, 1, 2, 3, 512]⟩,
          [⟨genericAll, ⟨1, 5, [21, 1, 2, 3, 512]⟩⟩, ⟨genericRead, authenticatedUsers⟩]⟩ ∧
      (regions (defaultDescriptor ⟨1, 5, [21, 1, 2, 3]⟩)).Pairwise Region.Disjoint ∧
      (∀ i, (∃ r ∈ regions (defaultDescriptor ⟨1, 5, [21, 1, 2, 3]⟩), r.Holds i) ↔
        i < (defaultDescriptor ⟨1, 5, [21, 1, 2, 3]⟩).length) ∧
      decode [1, 0, 4, 0x80] ≠ .error .panic :=
  descriptor_layout (by decide) (by decide) [1, 0, 4, 0x80]

end Default

end IronDirectory.Naming.SecurityDescriptor
