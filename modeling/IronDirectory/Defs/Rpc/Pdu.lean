import IronDirectory.Defs.Base.Numeral

namespace IronDirectory.Base.Bytes

def u16At (b : Bytes) (i : Nat) : UInt16 := UInt16.ofNat (ofLe ((b.drop i).take 2))

def u32At (b : Bytes) (i : Nat) : UInt32 := UInt32.ofNat (ofLe ((b.drop i).take 4))

theorem u16At_append {a : Bytes} {i : Nat} (h : a.length = i) (v : UInt16) (b : Bytes) :
    (a ++ (le 2 v.toNat ++ b)).u16At i = v := by
  rw [u16At, List.drop_left' h, List.take_left' (length_le 2 _), ofLe_le,
    Nat.mod_eq_of_lt (show v.toNat < 256 ^ 2 from v.toNat_lt), UInt16.ofNat_toNat]

theorem u16At_add (b : Bytes) (i j : Nat) : b.u16At (i + j) = u16At (b.drop i) j := by
  rw [u16At, u16At, List.drop_drop]

theorem u32At_append {a : Bytes} {i : Nat} (h : a.length = i) (v : UInt32) (b : Bytes) :
    (a ++ (le 4 v.toNat ++ b)).u32At i = v := by
  rw [u32At, List.drop_left' h, List.take_left' (length_le 4 _), ofNat_ofLe_le]

end IronDirectory.Base.Bytes

namespace IronDirectory.Rpc

open Base

namespace Uuid

def hexNibble (c : UInt8) : UInt8 :=
  if 0x30 ≤ c && c ≤ 0x39 then c - 0x30
  else if 0x61 ≤ c && c ≤ 0x66 then c - 0x61 + 10
  else if 0x41 ≤ c && c ≤ 0x46 then c - 0x41 + 10
  else 0

def hexByte (b : Bytes) (hi : Nat) : UInt8 :=
  (hexNibble (b.getD hi 0) <<< 4) ||| hexNibble (b.getD (hi + 1) 0)

/-- The wire form of a UUID written in groups; only called on the constants
below.  The first three groups are little-endian. -/
def uuidWire (s : Str) : Bytes :=
  [6, 4, 2, 0, 11, 9, 16, 14, 19, 21, 24, 26, 28, 30, 32, 34].map (hexByte s.toUtf8)

def syntaxId (uuid : Str) (major minor : UInt16) : Bytes :=
  uuidWire uuid ++ Bytes.le 2 major.toNat ++ Bytes.le 2 minor.toNat

def ndrTransferSyntax : Bytes := syntaxId "8a885d04-1ceb-11c9-9fe8-08002b104860" 2 0

def lsarpcSyntax : Bytes := syntaxId "12345778-1234-abcd-ef00-0123456789ab" 0 0

def samrSyntax : Bytes := syntaxId "12345778-1234-abcd-ef00-0123456789ac" 1 0

def netlogonSyntax : Bytes := syntaxId "12345678-1234-abcd-ef00-01234567cffb" 1 0

example : ndrTransferSyntax = [0x04, 0x5d, 0x88, 0x8a, 0xeb, 0x1c, 0xc9, 0x11, 0x9f, 0xe8,
    0x08, 0x00, 0x2b, 0x10, 0x48, 0x60, 0x02, 0x00, 0x00, 0x00] := by
  decide +kernel

end Uuid

namespace Pdu

def ptypeRequest : UInt8 := 0x00

def ptypeResponse : UInt8 := 0x02

def ptypeFault : UInt8 := 0x03

def ptypeBind : UInt8 := 0x0B

def ptypeBindAck : UInt8 := 0x0C

def pfcFirstFrag : UInt8 := 0x01

def pfcLastFrag : UInt8 := 0x02

def faultNdr : UInt32 := 0x000006F7

def faultUnkIf : UInt32 := 0x1C010003

def faultOpRngError : UInt32 := 0x1C010002

inductive PduError
  | tooShort (len : Nat)
  | unsupportedVersion (major minor : UInt8)
  deriving DecidableEq

structure PduHeader where
  ptype : UInt8
  flags : UInt8
  callId : UInt32

def parseHeader (buf : Bytes) : Except PduError (PduHeader × UInt16) :=
  if buf.length < 16 then .error (.tooShort buf.length)
  else if buf.getD 0 0 ≠ 5 then .error (.unsupportedVersion (buf.getD 0 0) (buf.getD 1 0))
  else .ok (⟨buf.getD 2 0, buf.getD 3 0, buf.u32At 12⟩, buf.u16At 8)

def writeCommonHeader (ptype : UInt8) (fragLen : UInt16) (callId : UInt32) : Bytes :=
  [5, 0, ptype, pfcFirstFrag ||| pfcLastFrag] ++ Bytes.le 4 0x10 ++ Bytes.le 2 fragLen.toNat ++
    Bytes.le 2 0 ++ Bytes.le 4 callId.toNat

def frame (ptype : UInt8) (callId : UInt32) (body : Bytes) : Bytes :=
  writeCommonHeader ptype (UInt16.ofNat (16 + body.length)) callId ++ body

theorem length_writeCommonHeader (ptype : UInt8) (fragLen : UInt16) (callId : UInt32) :
    (writeCommonHeader ptype fragLen callId).length = 16 := by
  simp [writeCommonHeader]

@[simp] theorem drop_frame (ptype : UInt8) (callId : UInt32) (body : Bytes) :
    (frame ptype callId body).drop 16 = body := by
  rw [frame, List.drop_left' (length_writeCommonHeader _ _ _)]

theorem fragLen_frame (ptype : UInt8) (callId : UInt32) (body : Bytes) :
    (frame ptype callId body).u16At 8 = UInt16.ofNat (16 + body.length) := by
  have hfrag : frame ptype callId body =
      ([5, 0, ptype, pfcFirstFrag ||| pfcLastFrag] ++ Bytes.le 4 0x10) ++
        (Bytes.le 2 (UInt16.ofNat (16 + body.length)).toNat ++
          (Bytes.le 2 0 ++ (Bytes.le 4 callId.toNat ++ body))) := by
    simp only [frame, writeCommonHeader, List.append_assoc]
  rw [hfrag]
  exact Bytes.u16At_append (by simp) _ _

@[simp] theorem parseHeader_frame (ptype : UInt8) (callId : UInt32) (body : Bytes) :
    parseHeader (frame ptype callId body) =
      .ok (⟨ptype, pfcFirstFrag ||| pfcLastFrag, callId⟩, UInt16.ofNat (16 + body.length)) := by
  have hlen : ¬ (frame ptype callId body).length < 16 := by
    simp [frame, length_writeCommonHeader]
  have hcall : frame ptype callId body =
      ([5, 0, ptype, pfcFirstFrag ||| pfcLastFrag] ++ Bytes.le 4 0x10 ++
        Bytes.le 2 (UInt16.ofNat (16 + body.length)).toNat ++ Bytes.le 2 0) ++
          (Bytes.le 4 callId.toNat ++ body) := by
    simp only [frame, writeCommonHeader, List.append_assoc]
  have hcallId : (frame ptype callId body).u32At 12 = callId := by
    rw [hcall]
    exact Bytes.u32At_append (by simp) _ _
  rw [parseHeader, if_neg hlen, if_neg (by simp [frame, writeCommonHeader]), fragLen_frame, hcallId]
  rfl

structure CtxResult where
  result : UInt16
  reason : UInt16
  deriving DecidableEq

def CtxResult.accept : CtxResult := ⟨0, 0⟩

def CtxResult.rejectAbstractSyntaxNotSupported : CtxResult := ⟨2, 2⟩

def CtxResult.item (r : CtxResult) : Bytes :=
  Bytes.le 2 r.result.toNat ++ Bytes.le 2 r.reason.toNat ++ Uuid.ndrTransferSyntax

def buildBindAck (callId : UInt32) (maxFrag : UInt16) (assocGroup : UInt32)
    (results : List CtxResult) : Bytes :=
  let body := Bytes.le 2 maxFrag.toNat ++ Bytes.le 2 maxFrag.toNat ++
    Bytes.le 4 assocGroup.toNat ++ Bytes.le 2 0
  let body := body ++ List.replicate ((4 - body.length % 4) % 4) 0
  let body := body ++ [UInt8.ofNat results.length, 0] ++ Bytes.le 2 0
  frame ptypeBindAck callId (body ++ results.flatMap CtxResult.item)

def buildResponse (callId : UInt32) (ctxId : UInt16) (stubData : Bytes) : Bytes :=
  frame ptypeResponse callId
    (Bytes.le 4 stubData.length ++ Bytes.le 2 ctxId.toNat ++ [0, 0] ++ stubData)

def buildFault (callId : UInt32) (ctxId : UInt16) (status : UInt32) : Bytes :=
  frame ptypeFault callId
    (Bytes.le 4 4 ++ Bytes.le 2 ctxId.toNat ++ [0, 0] ++ Bytes.le 4 status.toNat)

structure BindCtxItem where
  ctxId : UInt16
  abstractSyntax : Bytes

-- The transfer syntax is skipped without being looked at.
def parseCtxItems : Nat → Bytes → Option (List BindCtxItem)
  | 0, _ => some []
  | n + 1, rest =>
    if rest.length < 4 then none
    else if rest.getD 2 0 ≠ 1 ∨ (rest.drop 4).length < 40 then none
    else do
      let items ← parseCtxItems n (rest.drop 44)
      return ⟨rest.u16At 0, (rest.drop 4).take 20⟩ :: items

def parseBindBody (body : Bytes) : Option (List BindCtxItem) :=
  if body.length < 12 then none else parseCtxItems (body.getD 8 0).toNat (body.drop 12)

def BindCtxItem.item (i : BindCtxItem) : Bytes :=
  Bytes.le 2 i.ctxId.toNat ++ ([1, 0] ++ (i.abstractSyntax ++ Uuid.ndrTransferSyntax))

def buildBind (callId : UInt32) (maxFrag : UInt16) (ctxItems : List BindCtxItem) : Bytes :=
  frame ptypeBind callId (Bytes.le 2 maxFrag.toNat ++ Bytes.le 2 maxFrag.toNat ++ Bytes.le 4 0 ++
    [UInt8.ofNat ctxItems.length, 0] ++ Bytes.le 2 0 ++ ctxItems.flatMap BindCtxItem.item)

theorem length_ndrTransferSyntax : Uuid.ndrTransferSyntax.length = 20 := by
  simp [Uuid.ndrTransferSyntax, Uuid.syntaxId, Uuid.uuidWire]

theorem BindCtxItem.length_item {i : BindCtxItem} (h : i.abstractSyntax.length = 20) :
    i.item.length = 44 := by
  simp [BindCtxItem.item, h, length_ndrTransferSyntax]

theorem parseCtxItems_items {items : List BindCtxItem}
    (h : ∀ i ∈ items, i.abstractSyntax.length = 20) :
    parseCtxItems items.length (items.flatMap BindCtxItem.item) = some items := by
  induction items with
  | nil => rfl
  | cons i items ih =>
    rw [List.forall_mem_cons] at h
    have hlen := BindCtxItem.length_item h.1
    have hlong : ¬ (i.item ++ items.flatMap BindCtxItem.item).length < 4 := by
      rw [List.length_append, hlen]
      omega
    have hone : (i.item ++ items.flatMap BindCtxItem.item).getD 2 0 = 1 := rfl
    have hid : (i.item ++ items.flatMap BindCtxItem.item).u16At 0 = i.ctxId := by
      rw [BindCtxItem.item, List.append_assoc]
      exact Bytes.u16At_append (a := []) rfl _ _
    have habstract :
        ((i.item ++ items.flatMap BindCtxItem.item).drop 4).take 20 = i.abstractSyntax := by
      have hsplit : i.item ++ items.flatMap BindCtxItem.item =
          (Bytes.le 2 i.ctxId.toNat ++ [1, 0]) ++ (i.abstractSyntax ++
            (Uuid.ndrTransferSyntax ++ items.flatMap BindCtxItem.item)) := by
        simp [BindCtxItem.item]
      rw [hsplit, List.drop_left' (by simp), List.take_left' h.1]
    have hshort : ¬ ((i.item ++ items.flatMap BindCtxItem.item).getD 2 0 ≠ 1 ∨
        ((i.item ++ items.flatMap BindCtxItem.item).drop 4).length < 40) := by
      refine not_or.mpr ⟨not_not.mpr hone, ?_⟩
      rw [List.length_drop, List.length_append, hlen]
      omega
    rw [List.flatMap_cons, List.length_cons, parseCtxItems, if_neg hlong, if_neg hshort,
      List.drop_left' hlen, ih h.2, hid, habstract]
    rfl

theorem parseBindBody_buildBind (callId : UInt32) (maxFrag : UInt16) {items : List BindCtxItem}
    (hlen : items.length < 256) (h : ∀ i ∈ items, i.abstractSyntax.length = 20) :
    parseBindBody ((buildBind callId maxFrag items).drop 16) = some items := by
  rw [buildBind, drop_frame]
  generalize hfixed : Bytes.le 2 maxFrag.toNat ++ Bytes.le 2 maxFrag.toNat ++ Bytes.le 4 0 ++
    [UInt8.ofNat items.length, 0] ++ Bytes.le 2 0 = fixed
  have htwelve : fixed.length = 12 := by
    rw [← hfixed]
    simp
  have hcount : (fixed ++ items.flatMap BindCtxItem.item).getD 8 0 =
      UInt8.ofNat items.length := by
    rw [← hfixed]
    rfl
  have hlong : ¬ (fixed ++ items.flatMap BindCtxItem.item).length < 12 := by
    rw [List.length_append, htwelve]
    omega
  rw [parseBindBody, if_neg hlong, hcount, List.drop_left' htwelve, UInt8.toNat_ofNat',
    Nat.mod_eq_of_lt hlen, parseCtxItems_items h]

structure RequestBody where
  ctxId : UInt16
  opnum : UInt16
  stubData : Bytes

def parseRequestBody (body : Bytes) : Option RequestBody :=
  if body.length < 8 then none else some ⟨body.u16At 4, body.u16At 6, body.drop 8⟩

def buildRequest (callId : UInt32) (ctxId opnum : UInt16) (stubData : Bytes) : Bytes :=
  frame ptypeRequest callId
    (Bytes.le 4 stubData.length ++ Bytes.le 2 ctxId.toNat ++ Bytes.le 2 opnum.toNat ++ stubData)

theorem parseRequestBody_buildRequest (callId : UInt32) (ctxId opnum : UInt16) (stub : Bytes) :
    parseRequestBody ((buildRequest callId ctxId opnum stub).drop 16) =
      some ⟨ctxId, opnum, stub⟩ := by
  rw [buildRequest, drop_frame, List.append_assoc, List.append_assoc]
  have hlong : ¬ (Bytes.le 4 stub.length ++
      (Bytes.le 2 ctxId.toNat ++ (Bytes.le 2 opnum.toNat ++ stub))).length < 8 := by
    simp only [List.length_append, Bytes.length_le]
    omega
  rw [parseRequestBody, if_neg hlong, Bytes.u16At_append (Bytes.length_le 4 _)]
  rw [← List.append_assoc, Bytes.u16At_append (by simp), ← List.append_assoc,
    List.drop_left' (by simp)]

def parseResponseBody (ptype : UInt8) (body : Bytes) : Option (Except UInt32 Bytes) :=
  if body.length < 8 then none
  else if ptype = ptypeResponse then some (.ok (body.drop 8))
  else if ptype = ptypeFault ∧ 12 ≤ body.length then some (.error (body.u32At 8))
  else none

def allAccepted : Nat → Bytes → Option Bool
  | 0, _ => some true
  | n + 1, rest =>
    if rest.length < 2 then none
    else if rest.u16At 0 ≠ 0 then some false
    else allAccepted n (rest.drop 24)

def parseBindAckAllAccepted (body : Bytes) : Option Bool :=
  if body.length < 10 then none
  else
    let pos := 10 + (body.u16At 8).toNat
    let pos := pos + (4 - pos % 4) % 4
    if body.length < pos + 4 then none
    else if body.getD pos 0 = 0 then some false
    else allAccepted (body.getD pos 0).toNat (body.drop (pos + 4))

end Pdu

end IronDirectory.Rpc
