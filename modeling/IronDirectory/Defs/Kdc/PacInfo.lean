import IronDirectory.Defs.Kdc.Pac
import IronDirectory.Defs.Rpc.NdrLaws

/-! The logon information of a PAC, read by the rules of NDR: every field at its
natural alignment, and what pointers point to after the fixed part, in the order
the pointers were met. -/

namespace IronDirectory.Kdc.Pac

open Base Naming Rpc

namespace ValidationInfo

section Reader

def align (n : Nat) : NdrRead Unit := modify fun r => { r with pos := r.pos + padding n r.pos }

def short : NdrRead UInt16 := do
  align 2
  NdrRead.u16

def long : NdrRead UInt32 := do
  align 4
  NdrRead.u32

def fileTime : NdrRead (UInt32 × UInt32) := do
  let low ← long
  let high ← long
  return (low, high)

def unicodeString : NdrRead (UInt16 × UInt32) := do
  align 4
  NdrRead.unicodeStringHeader

def times : NdrRead Unit := do
  let _logonTime ← fileTime
  let _logoffTime ← fileTime
  let _kickOffTime ← fileTime
  let _passwordLastSet ← fileTime
  let _passwordCanChange ← fileTime
  let _passwordMustChange ← fileTime

structure Names where
  effectiveName : UInt16 × UInt32
  fullName : UInt16 × UInt32
  logonScript : UInt16 × UInt32
  profilePath : UInt16 × UInt32
  homeDirectory : UInt16 × UInt32
  homeDirectoryDrive : UInt16 × UInt32

def names : NdrRead Names := do
  let effectiveName ← unicodeString
  let fullName ← unicodeString
  let logonScript ← unicodeString
  let profilePath ← unicodeString
  let homeDirectory ← unicodeString
  let homeDirectoryDrive ← unicodeString
  return ⟨effectiveName, fullName, logonScript, profilePath, homeDirectory, homeDirectoryDrive⟩

structure Membership where
  userId : UInt32
  primaryGroupId : UInt32
  groupCount : UInt32
  groupIds : UInt32

def membership : NdrRead Membership := do
  let _logonCount ← short
  let _badPasswordCount ← short
  let userId ← long
  let primaryGroupId ← long
  let groupCount ← long
  let groupIds ← long
  let _userFlags ← long
  let _userSessionKey ← NdrRead.bytes 16
  return ⟨userId, primaryGroupId, groupCount, groupIds⟩

structure Domain where
  logonServer : UInt16 × UInt32
  logonDomainName : UInt16 × UInt32
  logonDomainId : UInt32

def domain : NdrRead Domain := do
  let logonServer ← unicodeString
  let logonDomainName ← unicodeString
  let logonDomainId ← long
  let _reserved1 ← fileTime
  return ⟨logonServer, logonDomainName, logonDomainId⟩

structure Extra where
  extraSids : UInt32
  resourceGroupDomainSid : UInt32
  resourceGroupIds : UInt32

def extra : NdrRead Extra := do
  let _userAccountControl ← long
  let _subAuthStatus ← long
  let _lastSuccessfulILogon ← fileTime
  let _lastFailedILogon ← fileTime
  let _failedILogonCount ← long
  let _reserved3 ← long
  let _sidCount ← long
  let extraSids ← long
  let resourceGroupDomainSid ← long
  let _resourceGroupCount ← long
  let resourceGroupIds ← long
  return ⟨extraSids, resourceGroupDomainSid, resourceGroupIds⟩

structure FixedPart where
  names : Names
  membership : Membership
  domain : Domain
  extra : Extra

def fixedPart : NdrRead FixedPart := do
  times
  let names ← names
  let membership ← membership
  let domain ← domain
  let extra ← extra
  return ⟨names, membership, domain, extra⟩

def pointee {α : Type} (read : NdrRead α) (pointer : UInt32) : NdrRead (Option α) :=
  if pointer = 0 then return none
  else do
    align 4
    let a ← read
    return some a

def text (header : UInt16 × UInt32) : NdrRead (Option Str) :=
  pointee (do
    let s ← NdrRead.unicodeStringDeferred
    if 2 * s.encodeUtf16.length = header.1.toNat then return s else throw .badString) header.2

def groupEntries : Nat → NdrRead (List (UInt32 × UInt32))
  | 0 => return []
  | n + 1 => do
    let relativeId ← NdrRead.u32
    let attributes ← NdrRead.u32
    return (relativeId, attributes) :: (← groupEntries n)

def groups : UInt32 → NdrRead (Option (List (UInt32 × UInt32))) :=
  pointee do
    let maximumCount ← NdrRead.u32
    groupEntries maximumCount.toNat

def sidsAt : List (UInt32 × UInt32) → NdrRead (List (Option Sid))
  | [] => return []
  | (pointer, _) :: rest => do
    let sid ← pointee NdrRead.sidDeferred pointer
    return sid :: (← sidsAt rest)

def sidArray : UInt32 → NdrRead (Option (List (Option Sid))) :=
  pointee do
    let maximumCount ← NdrRead.u32
    let entries ← groupEntries maximumCount.toNat
    sidsAt entries

end Reader

end ValidationInfo

structure ValidationInfo where
  userId : UInt32
  primaryGroupId : UInt32
  groupCount : UInt32
  groupIds : Option (List (UInt32 × UInt32))
  effectiveName : Option Str
  fullName : Option Str
  logonScript : Option Str
  profilePath : Option Str
  homeDirectory : Option Str
  homeDirectoryDrive : Option Str
  logonServer : Option Str
  logonDomainName : Option Str
  logonDomainId : Option Sid
  extraSids : Option (List (Option Sid))
  resourceGroupDomainSid : Option Sid
  resourceGroupIds : Option (List (UInt32 × UInt32))

namespace ValidationInfo

def deferredPart (p : FixedPart) : NdrRead ValidationInfo := do
  let effectiveName ← text p.names.effectiveName
  let fullName ← text p.names.fullName
  let logonScript ← text p.names.logonScript
  let profilePath ← text p.names.profilePath
  let homeDirectory ← text p.names.homeDirectory
  let homeDirectoryDrive ← text p.names.homeDirectoryDrive
  let groupIds ← groups p.membership.groupIds
  let logonServer ← text p.domain.logonServer
  let logonDomainName ← text p.domain.logonDomainName
  let logonDomainId ← pointee NdrRead.sidDeferred p.domain.logonDomainId
  let extraSids ← sidArray p.extra.extraSids
  let resourceGroupDomainSid ← pointee NdrRead.sidDeferred p.extra.resourceGroupDomainSid
  let resourceGroupIds ← groups p.extra.resourceGroupIds
  return ⟨p.membership.userId, p.membership.primaryGroupId, p.membership.groupCount, groupIds,
    effectiveName, fullName, logonScript, profilePath, homeDirectory, homeDirectoryDrive,
    logonServer, logonDomainName, logonDomainId, extraSids, resourceGroupDomainSid,
    resourceGroupIds⟩

def read : NdrRead ValidationInfo := fixedPart >>= deferredPart

section Writing

def advance (s : Str) : UInt32 := if s = [] then 0 else 4

variable (b : Bytes) (id : UInt32)

theorem mk_bytes (c : Bytes) : (NdrBuf.mk b id).bytes c = ⟨b ++ c, id⟩ := by
  rw [NdrBuf.bytes]

theorem mk_u16 (v : UInt16) : (NdrBuf.mk b id).u16 v = ⟨b ++ Bytes.le 2 v.toNat, id⟩ := by
  rw [NdrBuf.u16, mk_bytes]

theorem mk_u32 (v : UInt32) : (NdrBuf.mk b id).u32 v = ⟨b ++ Bytes.le 4 v.toNat, id⟩ := by
  rw [NdrBuf.u32, mk_bytes]

theorem mk_referentId : (NdrBuf.mk b id).referentId = ⟨b ++ Bytes.le 4 id.toNat, id + 4⟩ := by
  rw [NdrBuf.referentId, mk_u32]

theorem mk_nullPtr : (NdrBuf.mk b id).nullPtr = ⟨b ++ Bytes.le 4 (0 : UInt32).toNat, id⟩ := by
  rw [NdrBuf.nullPtr, mk_u32]

theorem mk_padTo4 :
    (NdrBuf.mk b id).padTo4 = ⟨b ++ List.replicate (padding 4 b.length) 0, id⟩ := rfl

def timeBytes (ticks : UInt64) : Bytes :=
  Bytes.le 4 ticks.toUInt32.toNat ++ Bytes.le 4 (ticks >>> 32).toUInt32.toNat

theorem mk_filetime (ticks : UInt64) :
    (NdrBuf.mk b id).filetime ticks = ⟨b ++ timeBytes ticks, id⟩ := by
  rw [NdrBuf.filetime, mk_u32, mk_u32, List.append_assoc]
  rfl

theorem mk_writeUnicodeStringHeader (s : Str) :
    writeUnicodeStringHeader ⟨b, id⟩ s = ⟨b ++ headerBytes id s, id + advance s⟩ := by
  cases s with
  | nil =>
    rw [advance, if_pos rfl, UInt32.add_zero]
    simp only [writeUnicodeStringHeader, List.isEmpty_nil, if_true, mk_u16, mk_nullPtr,
      List.append_assoc]
    rfl
  | cons c s =>
    simp only [writeUnicodeStringHeader, List.isEmpty_cons, Bool.false_eq_true, if_false, mk_u16,
      mk_referentId, List.append_assoc]
    rfl

theorem foldl_u16 (us : List UInt16) :
    us.foldl NdrBuf.u16 ⟨b, id⟩ = ⟨b ++ unitBytes us, id⟩ := by
  induction us generalizing b with
  | nil => rw [List.foldl_nil, unitBytes, List.flatMap_nil, List.append_nil]
  | cons u us ih =>
    rw [List.foldl_cons, mk_u16, ih, List.append_assoc]
    rfl

theorem mk_writeUnicodeStringDeferred (s : Str) : writeUnicodeStringDeferred ⟨b, id⟩ s =
    ⟨b ++ NdrWriter.deferredBytes b.length s, id⟩ := by
  cases s with
  | nil =>
    change NdrBuf.mk b id = ⟨b ++ [], id⟩
    rw [List.append_nil]
  | cons c s =>
    have hwide : (Str.encodeUtf16 (c :: s)).foldl NdrBuf.u16
        ((((NdrBuf.mk b id).u32 (UInt32.ofNat (Str.encodeUtf16 (c :: s)).length)).u32 0).u32
          (UInt32.ofNat (Str.encodeUtf16 (c :: s)).length)) = ⟨b ++ wideBytes (c :: s), id⟩ := by
      rw [mk_u32, mk_u32, mk_u32, foldl_u16]
      simp only [List.append_assoc]
      rfl
    change NdrBuf.padTo4 _ = _
    rw [hwide, mk_padTo4, NdrWriter.deferredBytes, if_neg (List.cons_ne_nil c s), List.append_assoc,
      List.length_append]

def groupBytes (rids : List UInt32) : Bytes :=
  rids.flatMap fun rid => Bytes.le 4 rid.toNat ++ Bytes.le 4 groupAttrsDefault.toNat

theorem foldl_groups (rids : List UInt32) :
    rids.foldl (fun o rid => (o.u32 rid).u32 groupAttrsDefault) (NdrBuf.mk b id) =
      ⟨b ++ groupBytes rids, id⟩ := by
  induction rids generalizing b with
  | nil => rw [List.foldl_nil, groupBytes, List.flatMap_nil, List.append_nil]
  | cons rid rids ih =>
    rw [List.foldl_cons, mk_u32, mk_u32, ih]
    simp only [List.append_assoc]
    rfl

theorem mk_writeSidDeferred (sid : Sid) :
    writeSidDeferred ⟨b, id⟩ sid = ⟨b ++ sidBytes sid, id⟩ := by
  rw [writeSidDeferred, mk_u32, mk_bytes, List.append_assoc]
  rfl

end Writing

section Layout

variable (input : PacInput)

def timesBytes : Bytes :=
  timeBytes (filetimeFromUnixSecs input.authTimeUnixSecs) ++ (timeBytes filetimeNever ++
  (timeBytes filetimeNever ++ (timeBytes (filetimeFromUnixSecs input.authTimeUnixSecs) ++
  (timeBytes (filetimeFromUnixSecs input.authTimeUnixSecs) ++ timeBytes filetimeNever))))

def namesBytes (id : UInt32) : Bytes :=
  let next := id + advance input.accountName
  headerBytes id input.accountName ++ (headerBytes next input.accountName ++
  (headerBytes id [] ++ (headerBytes id [] ++ (headerBytes id [] ++ headerBytes id []))))

def membershipBytes (id : UInt32) : Bytes :=
  Bytes.le 2 (0 : UInt16).toNat ++ (Bytes.le 2 (0 : UInt16).toNat ++
  (Bytes.le 4 (input.clientSid.rid.getD 0).toNat ++ (Bytes.le 4 defaultPrimaryGroupRid.toNat ++
  (Bytes.le 4 (UInt32.ofNat input.groupRids.length).toNat ++ (Bytes.le 4 id.toNat ++
  (Bytes.le 4 (0 : UInt32).toNat ++ List.replicate 16 0))))))

def domainBytes (id : UInt32) : Bytes :=
  let next := id + advance input.domainNetbiosName
  headerBytes id input.domainNetbiosName ++ (headerBytes next input.domainNetbiosName ++
  (Bytes.le 4 (next + advance input.domainNetbiosName).toNat ++ timeBytes 0))

def extraBytes : Bytes :=
  Bytes.le 4 (0x00000200 : UInt32).toNat ++ (Bytes.le 4 (0 : UInt32).toNat ++
  (timeBytes 0 ++ (timeBytes 0 ++ (Bytes.le 4 (0 : UInt32).toNat ++
  (Bytes.le 4 (0 : UInt32).toNat ++ (Bytes.le 4 (0 : UInt32).toNat ++
  (Bytes.le 4 (0 : UInt32).toNat ++ (Bytes.le 4 (0 : UInt32).toNat ++
  (Bytes.le 4 (0 : UInt32).toNat ++ Bytes.le 4 (0 : UInt32).toNat)))))))))

def groupId : UInt32 := 0x00020000 + advance input.accountName + advance input.accountName

def fixedBytes : Bytes :=
  timesBytes input ++ (namesBytes input 0x00020000 ++ (membershipBytes input (groupId input) ++
  (domainBytes input (groupId input + 4) ++ extraBytes)))

section Stages

def writeTimes (o : NdrBuf) : NdrBuf :=
  let logonTime := filetimeFromUnixSecs input.authTimeUnixSecs
  let o := (o.filetime logonTime).filetime filetimeNever
  let o := (o.filetime filetimeNever).filetime logonTime
  (o.filetime logonTime).filetime filetimeNever

def writeNames (o : NdrBuf) : NdrBuf :=
  let o := writeUnicodeStringHeader o input.accountName
  let o := writeUnicodeStringHeader o input.accountName
  let o := writeUnicodeStringHeader (writeUnicodeStringHeader o []) []
  writeUnicodeStringHeader (writeUnicodeStringHeader o []) []

def writeMembership (o : NdrBuf) : NdrBuf :=
  let o := (o.u16 0).u16 0
  let o := o.u32 (input.clientSid.rid.getD 0)
  let o := o.u32 defaultPrimaryGroupRid
  let o := (o.u32 (UInt32.ofNat input.groupRids.length)).referentId
  (o.u32 0).bytes (List.replicate 16 0)

def writeDomain (o : NdrBuf) : NdrBuf :=
  let o := writeUnicodeStringHeader o input.domainNetbiosName
  let o := (writeUnicodeStringHeader o input.domainNetbiosName).referentId
  o.bytes (List.replicate 8 0)

def writeExtra (o : NdrBuf) : NdrBuf :=
  let o := o.u32 0x00000200
  let o := ((o.u32 0).filetime 0).filetime 0
  let o := (o.u32 0).u32 0
  let o := ((o.u32 0).nullPtr).nullPtr
  (o.u32 0).nullPtr

def writeDeferred (o : NdrBuf) : NdrBuf :=
  let o := writeUnicodeStringDeferred o input.accountName
  let o := writeUnicodeStringDeferred o input.accountName
  let o := o.u32 (UInt32.ofNat input.groupRids.length)
  let o := input.groupRids.foldl (fun o rid => (o.u32 rid).u32 groupAttrsDefault) o
  let o := writeUnicodeStringDeferred o input.domainNetbiosName
  let o := writeUnicodeStringDeferred o input.domainNetbiosName
  writeSidDeferred o input.domainSid

theorem kerbValidationInfo_stages : kerbValidationInfo input =
    (writeDeferred input (writeExtra (writeDomain input (writeMembership input
      (writeNames input (writeTimes input NdrBuf.new)))))).buf := rfl

variable (b : Bytes) (id : UInt32)

theorem mk_writeTimes : writeTimes input ⟨b, id⟩ = ⟨b ++ timesBytes input, id⟩ := by
  simp only [writeTimes, mk_filetime, List.append_assoc, timesBytes]

theorem mk_writeNames : writeNames input ⟨b, id⟩ =
    ⟨b ++ namesBytes input id, id + advance input.accountName + advance input.accountName⟩ := by
  have hnone : advance [] = 0 := rfl
  simp only [writeNames, mk_writeUnicodeStringHeader, hnone, UInt32.add_zero, List.append_assoc,
    namesBytes]
  rfl

theorem mk_writeMembership : writeMembership input ⟨b, id⟩ =
    ⟨b ++ membershipBytes input id, id + 4⟩ := by
  simp only [writeMembership, mk_u16, mk_u32, mk_referentId, mk_bytes, List.append_assoc,
    membershipBytes]

theorem mk_writeDomain : writeDomain input ⟨b, id⟩ = ⟨b ++ domainBytes input id,
    id + advance input.domainNetbiosName + advance input.domainNetbiosName + 4⟩ := by
  simp only [writeDomain, mk_writeUnicodeStringHeader, mk_referentId, mk_bytes, List.append_assoc]
  rfl

theorem mk_writeExtra : writeExtra ⟨b, id⟩ = ⟨b ++ extraBytes, id⟩ := by
  simp only [writeExtra, mk_u32, mk_filetime, mk_nullPtr, List.append_assoc, extraBytes]

theorem kerbValidationInfo_eq : ∃ id, kerbValidationInfo input =
    (writeDeferred input ⟨fixedBytes input, id⟩).buf := by
  have hids : (0x00020000 : UInt32) + advance input.accountName + advance input.accountName =
      groupId input := rfl
  refine ⟨groupId input + 4 + advance input.domainNetbiosName + advance input.domainNetbiosName + 4,
    ?_⟩
  rw [kerbValidationInfo_stages, NdrBuf.new, mk_writeTimes, mk_writeNames, hids, List.nil_append,
    mk_writeMembership, mk_writeDomain, mk_writeExtra, fixedBytes]
  simp only [List.append_assoc]

end Stages

end Layout

section Fixed

variable {α β : Type} {read : NdrRead α} {enc : Bytes} {a : α}

theorem reads_align (n : Nat) (pre : Bytes) :
    NdrRead.Reads (align n) pre (List.replicate (padding n pre.length) 0) () := by
  intro post
  have hnext : (⟨pre ++ (List.replicate (padding n pre.length) 0 ++ post),
      pre.length + padding n pre.length⟩ : NdrReader) =
        NdrRead.cursor (pre ++ List.replicate (padding n pre.length) 0) post := by
    rw [NdrRead.cursor, List.append_assoc, List.length_append, List.length_replicate]
  rw [← hnext]
  rfl

theorem reads_aligned {n : Nat} {pre : Bytes} (h : padding n pre.length = 0)
    (hread : NdrRead.Reads read pre enc a) :
    NdrRead.Reads (align n >>= fun _ => read) pre enc a := by
  have halign := reads_align n pre
  rw [h, List.replicate_zero] at halign
  refine halign.bind ?_
  rw [List.append_nil]
  exact hread

structure Words (read : NdrRead α) (enc : Bytes) (a : α) : Prop where
  length : enc.length % 4 = 0
  reads : ∀ pre : Bytes, pre.length % 4 = 0 → NdrRead.Reads read pre enc a

theorem padding_of_mod {n : Nat} (h : n % 4 = 0) : padding 4 n = 0 := by
  rw [padding, h]

namespace Words

theorem bind {f : α → NdrRead β} {enc' : Bytes} {b : β} (hread : Words read enc a)
    (hf : Words (f a) enc' b) : Words (read >>= f) (enc ++ enc') b where
  length := by
    rw [List.length_append, Nat.add_mod, hread.length, hf.length]
  reads := by
    intro pre hpre
    refine (hread.reads pre hpre).bind (hf.reads _ ?_)
    rw [List.length_append, Nat.add_mod, hpre, hread.length]

theorem map {g : α → β} (hread : Words read enc a) :
    Words (read >>= fun a => pure (g a)) enc (g a) :=
  ⟨hread.length, fun pre hpre => (hread.reads pre hpre).map⟩

theorem long (v : UInt32) : Words long (Bytes.le 4 v.toNat) v where
  length := by rw [Bytes.length_le]
  reads := fun pre hpre => reads_aligned (padding_of_mod hpre) (NdrRead.reads_u32 pre v)

theorem shorts {f : UInt16 → UInt16 → NdrRead β} {v w : UInt16} {b : β}
    (hf : Words (f v w) enc b) : Words (short >>= fun v => short >>= fun w => f v w)
      (Bytes.le 2 v.toNat ++ (Bytes.le 2 w.toNat ++ enc)) b where
  length := by
    simp only [List.length_append, Bytes.length_le]
    have := hf.length
    omega
  reads := by
    intro pre hpre
    have hfirst : padding 2 pre.length = 0 := by
      rw [padding]
      omega
    have hsecond : padding 2 (pre ++ Bytes.le 2 v.toNat).length = 0 := by
      rw [padding, List.length_append, Bytes.length_le]
      omega
    refine (reads_aligned hfirst (NdrRead.reads_u16 pre v)).bind
      ((reads_aligned hsecond (NdrRead.reads_u16 _ w)).bind (hf.reads _ ?_))
    simp only [List.length_append, Bytes.length_le]
    omega

theorem bytes {b : Bytes} {n : Nat} (h : b.length = n) (hn : n % 4 = 0) :
    Words (NdrRead.bytes n) b b where
  length := h ▸ hn
  reads := fun pre _ => NdrRead.reads_bytes_of_length h pre

theorem fileTime (ticks : UInt64) :
    Words fileTime (timeBytes ticks) (ticks.toUInt32, (ticks >>> 32).toUInt32) :=
  (long _).bind (long _).map

theorem unicodeString (id : UInt32) (s : Str) : Words unicodeString (headerBytes id s)
    (UInt16.ofNat (s.encodeUtf16.length * 2), if s = [] then 0 else id) where
  length := by simp only [headerBytes, List.length_append, Bytes.length_le]
  reads := fun pre hpre =>
    reads_aligned (padding_of_mod hpre) (NdrRead.reads_unicodeStringHeader pre id s)

end Words

variable (input : PacInput)

def headerOf (id : UInt32) (s : Str) : UInt16 × UInt32 :=
  (UInt16.ofNat (s.encodeUtf16.length * 2), if s = [] then 0 else id)

theorem words_times : Words times (timesBytes input) () :=
  (Words.fileTime _).bind ((Words.fileTime _).bind ((Words.fileTime _).bind
    ((Words.fileTime _).bind ((Words.fileTime _).bind (Words.fileTime _).map))))

def namesOf (id : UInt32) : Names :=
  ⟨headerOf id input.accountName, headerOf (id + advance input.accountName) input.accountName,
    headerOf id [], headerOf id [], headerOf id [], headerOf id []⟩

theorem words_names (id : UInt32) : Words names (namesBytes input id) (namesOf input id) :=
  (Words.unicodeString _ _).bind ((Words.unicodeString _ _).bind ((Words.unicodeString _ _).bind
    ((Words.unicodeString _ _).bind ((Words.unicodeString _ _).bind
      (Words.unicodeString _ _).map))))

def membershipOf (id : UInt32) : Membership :=
  ⟨input.clientSid.rid.getD 0, defaultPrimaryGroupRid, UInt32.ofNat input.groupRids.length, id⟩

theorem words_membership (id : UInt32) :
    Words membership (membershipBytes input id) (membershipOf input id) :=
  .shorts ((Words.long _).bind ((Words.long _).bind ((Words.long _).bind ((Words.long _).bind
    ((Words.long _).bind (Words.bytes (b := List.replicate 16 0) List.length_replicate rfl).map)))))

def domainOf (id : UInt32) : Domain :=
  ⟨headerOf id input.domainNetbiosName,
    headerOf (id + advance input.domainNetbiosName) input.domainNetbiosName,
    id + advance input.domainNetbiosName + advance input.domainNetbiosName⟩

theorem words_domain (id : UInt32) : Words domain (domainBytes input id) (domainOf input id) :=
  (Words.unicodeString _ _).bind ((Words.unicodeString _ _).bind
    ((Words.long _).bind (Words.fileTime 0).map))

theorem words_extra : Words extra extraBytes ⟨0, 0, 0⟩ :=
  (Words.long _).bind ((Words.long _).bind ((Words.fileTime _).bind ((Words.fileTime _).bind
    ((Words.long _).bind ((Words.long _).bind ((Words.long _).bind ((Words.long _).bind
      ((Words.long _).bind ((Words.long _).bind (Words.long _).map)))))))))

def fixedOf : FixedPart :=
  ⟨namesOf input 0x00020000, membershipOf input (groupId input), domainOf input (groupId input + 4),
    ⟨0, 0, 0⟩⟩

theorem words_fixedPart : Words fixedPart (fixedBytes input) (fixedOf input) :=
  (words_times input).bind ((words_names input _).bind ((words_membership input _).bind
    ((words_domain input _).bind words_extra.map)))

end Fixed

section Deferred

variable {α : Type} {read : NdrRead α} {enc : Bytes} {a : α}

/-- What the writer has written once the reader has read `done`: it pads behind
each thing, the reader before the next. -/
def settled (done : Bytes) : Bytes := done ++ List.replicate (padding 4 done.length) 0

theorem length_settled_mod (done : Bytes) : (settled done).length % 4 = 0 := by
  rw [settled, List.length_append, List.length_replicate, add_padding_mod]

theorem settled_of_mod {done : Bytes} (h : done.length % 4 = 0) : settled done = done := by
  rw [settled, padding_of_mod h, List.replicate_zero, List.append_nil]

theorem append_settled (done enc : Bytes) :
    done ++ (List.replicate (padding 4 done.length) 0 ++ enc) = settled done ++ enc := by
  rw [settled, List.append_assoc]

theorem reads_pointee (done : Bytes) {pointer : UInt32} (hpointer : pointer ≠ 0)
    (hread : ∀ pre : Bytes, pre.length % 4 = 0 → NdrRead.Reads read pre enc a) :
    NdrRead.Reads (pointee read pointer) done
      (List.replicate (padding 4 done.length) 0 ++ enc) (some a) := by
  rw [pointee, if_neg hpointer]
  exact (reads_align 4 done).bind (hread _ (length_settled_mod done)).map

theorem reads_null_bind {β : Type} {done : Bytes} {f : Option α → NdrRead β} {b : β}
    (hf : NdrRead.Reads (f none) done enc b) :
    NdrRead.Reads (pointee read 0 >>= f) done enc b := by
  have hnull : NdrRead.Reads (pointee read 0) done [] none := .pure done none
  refine hnull.bind ?_
  rw [List.append_nil]
  exact hf

def nameOf (s : Str) : Option Str := if s = [] then none else some s

theorem exists_reads_text (done : Bytes) {id : UInt32} {s : Str}
    (hs : s.encodeUtf16.length < 32768) (hid : id ≠ 0) :
    ∃ enc, settled (done ++ enc) =
        settled done ++ NdrWriter.deferredBytes (settled done).length s ∧
      NdrRead.Reads (text (headerOf id s)) done enc (nameOf s) := by
  cases s with
  | nil =>
    refine ⟨[], ?_, .pure done none⟩
    rw [List.append_nil]
    exact (List.append_nil _).symm
  | cons c s =>
    have hlength : 2 * (Str.encodeUtf16 (c :: s)).length = (headerOf id (c :: s)).1.toNat := by
      rw [headerOf, UInt16.toNat_ofNat', Nat.mul_comm]
      exact (Nat.mod_eq_of_lt (by omega)).symm
    refine ⟨List.replicate (padding 4 done.length) 0 ++ wideBytes (c :: s), ?_,
      reads_pointee done hid fun pre _ => ?_⟩
    · rw [append_settled, NdrWriter.deferredBytes, if_neg (List.cons_ne_nil c s), settled,
        List.length_append, List.append_assoc]
    · rw [← List.append_nil (wideBytes (c :: s))]
      refine (NdrRead.reads_unicodeStringDeferred pre (hs.trans (by decide))).bind ?_
      rw [if_pos hlength]
      exact .pure _ _

theorem writeUnicodeStringDeferred_settled {done enc : Bytes} {s : Str}
    (h : settled (done ++ enc) =
      settled done ++ NdrWriter.deferredBytes (settled done).length s) (id : UInt32) :
    writeUnicodeStringDeferred ⟨settled done, id⟩ s = ⟨settled (done ++ enc), id⟩ := by
  rw [mk_writeUnicodeStringDeferred, h]

theorem reads_groupEntries (pre : Bytes) (rids : List UInt32) :
    NdrRead.Reads (groupEntries rids.length) pre (groupBytes rids)
      (rids.map fun rid => (rid, groupAttrsDefault)) := by
  induction rids generalizing pre with
  | nil => exact .pure pre []
  | cons rid rids ih =>
    rw [groupBytes, List.flatMap_cons, List.append_assoc]
    exact (NdrRead.reads_u32 pre rid).bind
      ((NdrRead.reads_u32 _ groupAttrsDefault).bind (ih _).map)

theorem length_groupBytes (rids : List UInt32) : (groupBytes rids).length = 8 * rids.length := by
  simp [groupBytes, List.length_flatMap, Nat.mul_comm]

theorem exists_reads_groups (done : Bytes) {id : UInt32} {rids : List UInt32}
    (hrids : rids.length < 2 ^ 32) (hid : id ≠ 0) :
    ∃ enc, settled (done ++ enc) =
        settled done ++ (Bytes.le 4 (UInt32.ofNat rids.length).toNat ++ groupBytes rids) ∧
      NdrRead.Reads (groups id) done enc (some (rids.map fun rid => (rid, groupAttrsDefault))) := by
  have hcount : (UInt32.ofNat rids.length).toNat = rids.length :=
    UInt32.toNat_ofNat'.trans (Nat.mod_eq_of_lt hrids)
  refine ⟨List.replicate (padding 4 done.length) 0 ++
    (Bytes.le 4 (UInt32.ofNat rids.length).toNat ++ groupBytes rids), ?_,
    reads_pointee done hid fun pre _ => (NdrRead.reads_u32 pre _).bind ?_⟩
  · have hmod := length_settled_mod done
    rw [append_settled, settled_of_mod]
    simp only [List.length_append, Bytes.length_le, length_groupBytes]
    omega
  · simp only [hcount]
    exact reads_groupEntries _ rids

end Deferred

section Reading

variable (input : PacInput)

def infoOf : ValidationInfo where
  userId := input.clientSid.rid.getD 0
  primaryGroupId := defaultPrimaryGroupRid
  groupCount := UInt32.ofNat input.groupRids.length
  groupIds := some (input.groupRids.map fun rid => (rid, groupAttrsDefault))
  effectiveName := nameOf input.accountName
  fullName := nameOf input.accountName
  logonScript := none
  profilePath := none
  homeDirectory := none
  homeDirectoryDrive := none
  logonServer := nameOf input.domainNetbiosName
  logonDomainName := nameOf input.domainNetbiosName
  logonDomainId := some input.domainSid
  extraSids := none
  resourceGroupDomainSid := none
  resourceGroupIds := none

theorem ids_ne_zero : (0x00020000 : UInt32) + advance input.accountName ≠ 0 ∧ groupId input ≠ 0 ∧
    groupId input + 4 ≠ 0 ∧ groupId input + 4 + advance input.domainNetbiosName ≠ 0 ∧
    groupId input + 4 + advance input.domainNetbiosName + advance input.domainNetbiosName ≠ 0 := by
  unfold groupId advance
  split <;> split <;> decide

theorem run_read_of_words {done enc : Bytes} {fixed : FixedPart} {info : ValidationInfo}
    (hfixed : Words fixedPart done fixed) (hrest : NdrRead.Reads (deferredPart fixed) done enc info) :
    StateT.run read ⟨done ++ enc, 0⟩ = .ok (info, ⟨done ++ enc, (done ++ enc).length⟩) := by
  have hall : NdrRead.Reads read [] (done ++ enc) info := (hfixed.reads [] rfl).bind hrest
  exact NdrRead.run_eq_of_reads hall

variable {input}
  (hsid : input.domainSid.authority.toNat < 2 ^ 48 ∧ input.domainSid.subAuthorities.length < 256)
  (hgroups : input.groupRids.length < 2 ^ 32)
  (haccount : input.accountName.encodeUtf16.length < 32768)
  (hdomain : input.domainNetbiosName.encodeUtf16.length < 32768)

include hsid hgroups haccount hdomain

theorem exists_reads_deferredPart {done : Bytes} (hdone : done.length % 4 = 0) (id : UInt32) :
    ∃ enc, (writeDeferred input ⟨done, id⟩).buf = done ++ enc ∧
      NdrRead.Reads (deferredPart (fixedOf input)) done enc (infoOf input) := by
  obtain ⟨hfull, hgroup, hserver, hname, hid⟩ := ids_ne_zero input
  have hfirst : (0x00020000 : UInt32) ≠ 0 := by decide
  -- Each thing is written behind what is settled and read behind what is done.
  obtain ⟨enc₁, hsettled₁, hread₁⟩ := exists_reads_text done haccount hfirst
  obtain ⟨enc₂, hsettled₂, hread₂⟩ := exists_reads_text (done ++ enc₁) haccount hfull
  obtain ⟨enc₃, hsettled₃, hread₃⟩ := exists_reads_groups (done ++ enc₁ ++ enc₂) hgroups hgroup
  obtain ⟨enc₄, hsettled₄, hread₄⟩ :=
    exists_reads_text (done ++ enc₁ ++ enc₂ ++ enc₃) hdomain hserver
  obtain ⟨enc₅, hsettled₅, hread₅⟩ :=
    exists_reads_text (done ++ enc₁ ++ enc₂ ++ enc₃ ++ enc₄) hdomain hname
  have hread₆ := reads_pointee (done ++ enc₁ ++ enc₂ ++ enc₃ ++ enc₄ ++ enc₅) hid
    fun pre _ => NdrRead.reads_sidDeferred pre hsid
  have hstart : NdrBuf.mk done id = ⟨settled done, id⟩ := by
    rw [settled_of_mod hdone]
  refine ⟨enc₁ ++ (enc₂ ++ (enc₃ ++ (enc₄ ++ (enc₅ ++ (List.replicate (padding 4
    (done ++ enc₁ ++ enc₂ ++ enc₃ ++ enc₄ ++ enc₅).length) 0 ++ sidBytes input.domainSid))))),
    ?_, ?_⟩
  · rw [hstart, writeDeferred, writeUnicodeStringDeferred_settled hsettled₁,
      writeUnicodeStringDeferred_settled hsettled₂, mk_u32, foldl_groups, List.append_assoc,
      ← hsettled₃, writeUnicodeStringDeferred_settled hsettled₄,
      writeUnicodeStringDeferred_settled hsettled₅, mk_writeSidDeferred, ← append_settled]
    simp only [List.append_assoc]
  · refine hread₁.bind (hread₂.bind ?_)
    refine reads_null_bind ?_
    refine reads_null_bind ?_
    refine reads_null_bind ?_
    refine reads_null_bind ?_
    refine hread₃.bind (hread₄.bind (hread₅.bind ?_))
    rw [← List.append_nil (List.replicate _ _ ++ sidBytes _)]
    refine hread₆.bind ?_
    refine reads_null_bind ?_
    refine reads_null_bind ?_
    refine reads_null_bind ?_
    exact .pure _ _

/-- A reader that goes by the rules recovers what the information is about, and
ends where it ends. -/
theorem validationInfo_decodes :
    StateT.run ValidationInfo.read ⟨kerbValidationInfo input, 0⟩ =
        .ok (infoOf input, ⟨kerbValidationInfo input, (kerbValidationInfo input).length⟩) ∧
      (infoOf input).groupCount.toNat = input.groupRids.length := by
  have hfixed := words_fixedPart input
  obtain ⟨id, hwritten⟩ := kerbValidationInfo_eq input
  obtain ⟨enc, henc, hread⟩ :=
    exists_reads_deferredPart hsid hgroups haccount hdomain hfixed.length id
  rw [hwritten, henc]
  exact ⟨run_read_of_words hfixed hread, UInt32.toNat_ofNat_of_lt' hgroups⟩

end Reading

def sampleInfo : PacInput :=
  ⟨.new 5 [21, 1, 2, 3, 1104], .new 5 [21, 1, 2, 3], [513, 512], "bob", "", 0⟩

theorem validationInfo_decodes_sample :
    StateT.run ValidationInfo.read ⟨kerbValidationInfo sampleInfo, 0⟩ =
        .ok (infoOf sampleInfo,
          ⟨kerbValidationInfo sampleInfo, (kerbValidationInfo sampleInfo).length⟩) ∧
      (infoOf sampleInfo).groupCount.toNat = 2 :=
  validationInfo_decodes (by decide) (by decide) (by decide) (by decide)

theorem exists_append_writeDeferred (input : PacInput) (b : Bytes) (id : UInt32) :
    ∃ rest, (writeDeferred input ⟨b, id⟩).buf = b ++ rest := by
  simp only [writeDeferred, mk_writeUnicodeStringDeferred, mk_u32, foldl_groups,
    mk_writeSidDeferred, List.append_assoc, List.append_cancel_left_eq]
  exact ⟨_, rfl⟩

theorem Words.exists_run {α : Type} {read : NdrRead α} {enc : Bytes} {a : α}
    (h : Words read enc a) (post : Bytes) :
    ∃ rest, StateT.run read ⟨enc ++ post, 0⟩ = .ok (a, rest) :=
  ⟨_, h.reads [] rfl post⟩

theorem exists_run_fixedPart (input : PacInput) :
    ∃ rest, StateT.run fixedPart ⟨kerbValidationInfo input, 0⟩ = .ok (fixedOf input, rest) := by
  obtain ⟨id, hwritten⟩ := kerbValidationInfo_eq input
  obtain ⟨rest, hrest⟩ := exists_append_writeDeferred input (fixedBytes input) id
  rw [hwritten, hrest]
  exact (words_fixedPart input).exists_run rest

def manyGroups : PacInput :=
  ⟨.new 5 [21, 1, 2, 3, 1104], .new 5 [21, 1, 2, 3], List.replicate (2 ^ 32) 513, "bob", "G8", 0⟩

/-- The count of the groups has 32 bits. -/
theorem groupCount_manyGroups :
    manyGroups.groupRids.length = 2 ^ 32 ∧
      ∃ fixed rest, StateT.run fixedPart ⟨kerbValidationInfo manyGroups, 0⟩ = .ok (fixed, rest) ∧
        fixed.membership.groupCount = 0 := by
  have hlength : manyGroups.groupRids.length = 2 ^ 32 := List.length_replicate
  obtain ⟨rest, hrun⟩ := exists_run_fixedPart manyGroups
  refine ⟨hlength, _, _, hrun, ?_⟩
  change UInt32.ofNat manyGroups.groupRids.length = 0
  rw [hlength]
  rfl

end ValidationInfo

end IronDirectory.Kdc.Pac
