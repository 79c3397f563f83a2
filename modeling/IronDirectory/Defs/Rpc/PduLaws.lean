import IronDirectory.Defs.Rpc.Pdu

namespace IronDirectory.Rpc.Pdu

open Base

section Length

theorem length_frame (ptype : UInt8) (callId : UInt32) (body : Bytes) :
    (frame ptype callId body).length = 16 + body.length := by
  rw [frame, List.length_append, length_writeCommonHeader]

def Headed (pdu : Bytes) (ptype : UInt8) (callId : UInt32) : Prop :=
  ∃ flags fragLen, parseHeader pdu = .ok (⟨ptype, flags, callId⟩, fragLen) ∧
    fragLen.toNat = pdu.length

theorem headed_frame {ptype : UInt8} {callId : UInt32} {body : Bytes}
    (h : (frame ptype callId body).length < 65536) :
    Headed (frame ptype callId body) ptype callId := by
  refine ⟨_, _, parseHeader_frame ptype callId body, ?_⟩
  rw [UInt16.toNat_ofNat', ← length_frame ptype callId body]
  exact Nat.mod_eq_of_lt h

theorem length_buildResponse (callId : UInt32) (ctxId : UInt16) (stub : Bytes) :
    (buildResponse callId ctxId stub).length = 24 + stub.length := by
  rw [buildResponse, length_frame]
  simp only [List.length_append, Bytes.length_le, List.length_cons, List.length_nil]
  omega

theorem length_buildRequest (callId : UInt32) (ctxId opnum : UInt16) (stub : Bytes) :
    (buildRequest callId ctxId opnum stub).length = 24 + stub.length := by
  rw [buildRequest, length_frame]
  simp only [List.length_append, Bytes.length_le]
  omega

theorem length_buildFault (callId : UInt32) (ctxId : UInt16) (status : UInt32) :
    (buildFault callId ctxId status).length = 28 := by
  rw [buildFault, length_frame]
  simp

theorem length_buildBind (callId : UInt32) (maxFrag : UInt16) {items : List BindCtxItem}
    (h : ∀ i ∈ items, i.abstractSyntax.length = 20) :
    (buildBind callId maxFrag items).length = 28 + 44 * items.length := by
  have hitems : (items.flatMap BindCtxItem.item).length = 44 * items.length := by
    rw [List.length_flatMap, List.map_congr_left fun i hi => BindCtxItem.length_item (h i hi)]
    simp [Nat.mul_comm]
  rw [buildBind, length_frame]
  simp only [List.length_append, Bytes.length_le, List.length_cons, List.length_nil, hitems]
  omega

end Length

section Answers

theorem buildBindAck_eq (callId : UInt32) (maxFrag : UInt16) (assocGroup : UInt32)
    (results : List CtxResult) : ∃ fixed : Bytes, fixed.length = 32 ∧
      buildBindAck callId maxFrag assocGroup results =
        fixed ++ results.flatMap CtxResult.item := by
  refine ⟨_, ?_, (List.append_assoc _ _ _).symm⟩
  simp [writeCommonHeader]

theorem CtxResult.length_item (r : CtxResult) : r.item.length = 24 := by
  simp [CtxResult.item, Uuid.ndrTransferSyntax, Uuid.syntaxId, Uuid.uuidWire]

theorem drop_items (results : List CtxResult) (k : Nat) :
    (results.flatMap CtxResult.item).drop (24 * k) = (results.drop k).flatMap CtxResult.item := by
  induction k generalizing results with
  | zero => simp
  | succ k ih =>
    cases results with
    | nil => simp
    | cons r results =>
      rw [List.flatMap_cons, List.drop_succ_cons, ← ih, Nat.mul_succ, Nat.add_comm,
        ← List.drop_drop, List.drop_left' r.length_item]

theorem buildResponse_eq (callId : UInt32) (ctxId : UInt16) (stub : Bytes) :
    ∃ head : Bytes, head.length = 8 ∧ buildResponse callId ctxId stub =
      frame ptypeResponse callId (head ++ stub) :=
  ⟨Bytes.le 4 stub.length ++ Bytes.le 2 ctxId.toNat ++ [0, 0], by simp, rfl⟩

theorem parseResponseBody_buildResponse (callId : UInt32) (ctxId : UInt16) (stub : Bytes) :
    parseResponseBody ptypeResponse ((buildResponse callId ctxId stub).drop 16) =
      some (.ok stub) := by
  obtain ⟨head, hlen, hpdu⟩ := buildResponse_eq callId ctxId stub
  have hlong : ¬ (head ++ stub).length < 8 := by
    rw [List.length_append, hlen]
    omega
  rw [hpdu, drop_frame, parseResponseBody, if_neg hlong, if_pos rfl, List.drop_left' hlen]

theorem status_buildFault (callId : UInt32) (ctxId : UInt16) (status : UInt32) :
    (buildFault callId ctxId status).u32At 24 = status := by
  obtain ⟨fixed, hlen, heq⟩ : ∃ fixed : Bytes, fixed.length = 24 ∧
      buildFault callId ctxId status = fixed ++ (Bytes.le 4 status.toNat ++ []) := by
    rw [List.append_nil]
    refine ⟨_, ?_, (List.append_assoc _ _ _).symm⟩
    simp [writeCommonHeader]
  rw [heq, Bytes.u32At_append hlen]

theorem parseResponseBody_buildFault (callId : UInt32) (ctxId : UInt16) (status : UInt32) :
    parseResponseBody ptypeFault ((buildFault callId ctxId status).drop 16) =
      some (.error status) := by
  have hlen : ((buildFault callId ctxId status).drop 16).length = 12 := by
    simp [buildFault]
  have hstatus : Bytes.u32At ((buildFault callId ctxId status).drop 16) 8 = status := by
    rw [Bytes.u32At, List.drop_drop]
    exact status_buildFault callId ctxId status
  rw [parseResponseBody, if_neg (by omega), if_neg (by decide), if_pos ⟨rfl, hlen.ge⟩, hstatus]

theorem allAccepted_items {n : Nat} {results : List CtxResult} (h : n ≤ results.length) :
    allAccepted n (results.flatMap CtxResult.item) =
      some ((results.take n).all fun r => r.result = 0) := by
  induction n generalizing results with
  | zero => rfl
  | succ n ih =>
    cases results with
    | nil => cases h
    | cons r results =>
      have hlong : ¬ (r.item ++ results.flatMap CtxResult.item).length < 2 := by
        rw [List.length_append, r.length_item]
        omega
      have hresult : (r.item ++ results.flatMap CtxResult.item).u16At 0 = r.result := by
        rw [CtxResult.item, List.append_assoc, List.append_assoc]
        exact Bytes.u16At_append (a := []) rfl _ _
      rw [List.flatMap_cons, allAccepted, if_neg hlong, hresult, List.drop_left' r.length_item,
        ih (Nat.le_of_succ_le_succ h), List.take_succ_cons, List.all_cons]
      by_cases hr : r.result = 0
      · simp [hr]
      · simp [hr]

theorem buildBindAck_body (callId : UInt32) (maxFrag : UInt16) (assocGroup : UInt32)
    (results : List CtxResult) : ∃ head : Bytes, head.length = 8 ∧
      (buildBindAck callId maxFrag assocGroup results).drop 16 =
        head ++ (Bytes.le 2 (0 : UInt16).toNat ++ ([0, 0] ++ ([UInt8.ofNat results.length, 0, 0, 0] ++
          results.flatMap CtxResult.item))) := by
  refine ⟨Bytes.le 2 maxFrag.toNat ++ Bytes.le 2 maxFrag.toNat ++ Bytes.le 4 assocGroup.toNat,
    by simp, ?_⟩
  rw [buildBindAck, drop_frame]
  simp [Bytes.le]

theorem parseBindAckAllAccepted_buildBindAck (callId : UInt32) (maxFrag : UInt16)
    (assocGroup : UInt32) (results : List CtxResult) :
    parseBindAckAllAccepted ((buildBindAck callId maxFrag assocGroup results).drop 16) =
      some (decide (results.length % 256 ≠ 0) &&
        (results.take (results.length % 256)).all fun r => r.result = 0) := by
  obtain ⟨head, hlen, hbody⟩ := buildBindAck_body callId maxFrag assocGroup results
  have hcount : (UInt8.ofNat results.length).toNat = results.length % 256 := UInt8.toNat_ofNat'
  have hle : results.length % 256 ≤ results.length := Nat.mod_le _ _
  rw [hbody]
  generalize hB : head ++ (Bytes.le 2 (0 : UInt16).toNat ++ ([0, 0] ++
    ([UInt8.ofNat results.length, 0, 0, 0] ++ results.flatMap CtxResult.item))) = body
  have hsplit : body = (head ++ Bytes.le 2 (0 : UInt16).toNat ++ [0, 0]) ++
      ([UInt8.ofNat results.length, 0, 0, 0] ++ results.flatMap CtxResult.item) := by
    rw [← hB]
    simp only [List.append_assoc]
  have hfront : (head ++ Bytes.le 2 (0 : UInt16).toNat ++ [0, 0]).length = 12 := by
    simp only [List.length_append, Bytes.length_le, hlen, List.length_cons, List.length_nil]
  have hlong : 16 ≤ body.length := by
    rw [hsplit, List.length_append, hfront, List.length_append]
    simp only [List.length_cons, List.length_nil]
    omega
  have haddr : body.u16At 8 = 0 := by
    rw [← hB]
    exact Bytes.u16At_append hlen 0 _
  have hnum : body.getD 12 0 = UInt8.ofNat results.length := by
    rw [hsplit, List.getD_append_right _ _ _ _ hfront.le, hfront]
    rfl
  have hrest : body.drop 16 = results.flatMap CtxResult.item := by
    rw [hsplit, ← List.append_assoc]
    exact List.drop_left' (by rw [List.length_append, hfront]; rfl)
  rw [parseBindAckAllAccepted, if_neg (by omega), haddr]
  change (if body.length < 16 then none else if body.getD 12 0 = 0 then some false
    else allAccepted (body.getD 12 0).toNat (body.drop 16)) = _
  have hzero : UInt8.ofNat results.length = 0 ↔ results.length % 256 = 0 := by
    rw [← UInt8.toNat_inj, hcount]
    rfl
  rw [if_neg (by omega), hnum, hcount, hrest, allAccepted_items hle]
  by_cases hnone : results.length % 256 = 0
  · simp [hzero.mpr hnone, hnone]
  · simp [mt hzero.mp hnone, hnone]

end Answers

section Agreement

/-- A bind, a request and their answers are read as they were written. -/
theorem halves_agree (callId assocGroup status : UInt32) (maxFrag ctxId opnum : UInt16)
    {items : List BindCtxItem} {stub : Bytes} {results : List CtxResult}
    (hitems : items.length ≤ 255) (hwidth : ∀ i ∈ items, i.abstractSyntax.length = 20)
    (hstub : (buildRequest callId ctxId opnum stub).length < 65536)
    (hresults : results.length ≤ 255) :
    (Headed (buildBind callId maxFrag items) ptypeBind callId ∧
      parseBindBody ((buildBind callId maxFrag items).drop 16) = some items) ∧
    (Headed (buildRequest callId ctxId opnum stub) ptypeRequest callId ∧
      parseRequestBody ((buildRequest callId ctxId opnum stub).drop 16) =
        some ⟨ctxId, opnum, stub⟩) ∧
    (Headed (buildResponse callId ctxId stub) ptypeResponse callId ∧
      parseResponseBody ptypeResponse ((buildResponse callId ctxId stub).drop 16) =
        some (.ok stub)) ∧
    (Headed (buildFault callId ctxId status) ptypeFault callId ∧
      parseResponseBody ptypeFault ((buildFault callId ctxId status).drop 16) =
        some (.error status)) ∧
    (parseBindAckAllAccepted ((buildBindAck callId maxFrag assocGroup results).drop 16) =
        some true ↔ results ≠ [] ∧ ∀ r ∈ results, r.result = 0) := by
  have hbind := length_buildBind callId maxFrag hwidth
  have hrequest := length_buildRequest callId ctxId opnum stub
  have hresponse := length_buildResponse callId ctxId stub
  have hfault := length_buildFault callId ctxId status
  refine ⟨⟨headed_frame (hbind.trans_lt (by omega)),
      parseBindBody_buildBind callId maxFrag (by omega) hwidth⟩,
    ⟨headed_frame hstub, parseRequestBody_buildRequest callId ctxId opnum stub⟩,
    ⟨headed_frame (hresponse.trans_lt (by omega)),
      parseResponseBody_buildResponse callId ctxId stub⟩,
    ⟨headed_frame (hfault.trans_lt (by omega)), parseResponseBody_buildFault callId ctxId status⟩,
    ?_⟩
  rw [parseBindAckAllAccepted_buildBindAck, Nat.mod_eq_of_lt (by omega), List.take_length]
  simp

def domainJoin : List BindCtxItem := [⟨0, Uuid.samrSyntax⟩, ⟨1, Uuid.netlogonSyntax⟩]

theorem halves_agree_sample :
    (Headed (buildBind 1 4280 domainJoin) ptypeBind 1 ∧
      parseBindBody ((buildBind 1 4280 domainJoin).drop 16) = some domainJoin) ∧
    (Headed (buildRequest 1 1 26 [1, 2, 3]) ptypeRequest 1 ∧
      parseRequestBody ((buildRequest 1 1 26 [1, 2, 3]).drop 16) = some ⟨1, 26, [1, 2, 3]⟩) ∧
    (Headed (buildResponse 1 1 [1, 2, 3]) ptypeResponse 1 ∧
      parseResponseBody ptypeResponse ((buildResponse 1 1 [1, 2, 3]).drop 16) =
        some (.ok [1, 2, 3])) ∧
    (Headed (buildFault 1 1 faultNdr) ptypeFault 1 ∧
      parseResponseBody ptypeFault ((buildFault 1 1 faultNdr).drop 16) = some (.error faultNdr)) ∧
    (parseBindAckAllAccepted ((buildBindAck 1 4280 1
        [.accept, .rejectAbstractSyntaxNotSupported]).drop 16) = some true ↔
      [CtxResult.accept, .rejectAbstractSyntaxNotSupported] ≠ [] ∧
        ∀ r ∈ [CtxResult.accept, .rejectAbstractSyntaxNotSupported], r.result = 0) :=
  halves_agree 1 1 faultNdr 4280 1 26 (by decide) (by decide +kernel) (by decide) (by decide)

/-- 256 accepted contexts are counted as none. -/
theorem parseBindAckAllAccepted_many :
    parseBindAckAllAccepted ((buildBindAck 1 4280 1 (List.replicate 256 .accept)).drop 16) =
        some false ∧
      List.replicate 256 CtxResult.accept ≠ [] ∧
      ∀ r ∈ List.replicate 256 CtxResult.accept, r.result = 0 := by
  refine ⟨?_, List.cons_ne_nil _ _, ?_⟩
  · rw [parseBindAckAllAccepted_buildBindAck, List.length_replicate]
    rfl
  · intro r hr
    rw [List.eq_of_mem_replicate hr]
    rfl

end Agreement

end IronDirectory.Rpc.Pdu
