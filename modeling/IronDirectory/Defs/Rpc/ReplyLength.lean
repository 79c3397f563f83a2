import IronDirectory.Defs.Rpc.NdrLaws
import IronDirectory.Defs.Rpc.Negotiation

/-! How long the PDUs of the server are.  An answer says its length in 16 bits;
only the lookup of names answers with more than a fixed part, and it takes a
longer request. -/

namespace IronDirectory.Rpc

open Base Naming Kdc

section Samr

namespace Samr

theorem spends_readHeaders (n : Nat) :
    Spends NdrRead.left (readHeaders n) fun k headers => headers.length = n ∧ k = 8 * n := by
  induction n with
  | zero => exact .pure ⟨rfl, rfl⟩
  | succ n ih =>
    refine NdrRead.spends_unicodeStringHeader.bind fun _ _ h₁ => ih.bind fun _ _ h₂ => ?_
    exact .pure ⟨congrArg Nat.succ h₂.1, by omega⟩

theorem spends_readNames (headers : List (UInt16 × UInt32)) :
    Spends NdrRead.left (readNames headers) fun _ names => names.length = headers.length := by
  induction headers with
  | nil => exact .pure rfl
  | cons header headers ih =>
    obtain ⟨length, referent⟩ := header
    have hrest : ∀ name : Str, Spends NdrRead.left (do
        NdrRead.padTo4
        return name :: (← readNames headers))
        fun _ names => names.length = headers.length + 1 := by
      intro name
      refine NdrRead.spends_padTo4.bind fun _ _ _ => ih.bind fun _ _ h => ?_
      exact .pure (congrArg Nat.succ h)
    rw [readNames]
    split
    · exact NdrRead.spends_unicodeStringDeferred.bind fun _ name _ => hrest name
    · exact (Spends.pure (Q := fun _ _ => True) trivial).bind fun _ name _ => hrest name

theorem spends_lookupNamesArgs :
    Spends NdrRead.left lookupNamesArgs fun k names => 36 + 8 * names.length ≤ k := by
  refine NdrRead.spends_handle.bind fun _ _ h₁ => NdrRead.spends_u32.bind fun _ count h₂ =>
    NdrRead.spends_u32.bind fun _ _ h₃ => NdrRead.spends_u32.bind fun _ _ h₄ =>
    NdrRead.spends_u32.bind fun _ _ h₅ => (spends_readHeaders count.toNat).bind fun _ _ h₆ =>
    (spends_readNames _).mono fun _ _ h₇ => ?_
  omega

theorem length_of_lookupNames {state : SamrState} {stub out : Bytes}
    (h : lookupNamesInDomain state stub = some out) : out.length + 8 ≤ stub.length := by
  obtain ⟨names, hnames, hout⟩ := Option.bind_eq_some_iff.mp h
  obtain ⟨k, hk, hcost⟩ := NdrRead.exists_of_run spends_lookupNamesArgs hnames
  cases hout
  simp only [NdrWriter.buf_u32, NdrWriter.buf_referentId, NdrWriter.length_foldl_u32,
    List.length_append, Bytes.length_le, List.length_map, NdrWriter.buf_new, List.length_nil]
  omega

theorem length_userHandle (rid : UInt32) : (userHandle rid).length = 20 := by
  simp only [userHandle, List.length_append, Bytes.length_le, List.length_replicate,
    List.length_cons]
  rfl

theorem length_createUser2Response (rid status : UInt32) :
    (createUser2Response rid status).length = 32 := by
  have hhandle : (if status = NtStatus.success then userHandle rid else nullHandle).length = 20 := by
    split
    · exact length_userHandle rid
    · rfl
  simp only [createUser2Response, NdrWriter.buf_u32, NdrWriter.buf_handle, List.length_append,
    Bytes.length_le, NdrWriter.buf_new, List.length_nil, hhandle]

theorem length_of_createAccount {state : SamrState} {domainSid : Sid} {name : Str} {dn : Dn}
    {out : Bytes} (h : (createAccount state domainSid name dn).response = some out) :
    out.length = 32 := by
  unfold createAccount at h
  split at h
  · cases h
    exact length_createUser2Response _ _
  · dsimp only at h
    split at h
    all_goals
      cases h
      exact length_createUser2Response _ _

theorem length_of_createUser2 {state : SamrState} {domainSid : Sid} {stub out : Bytes}
    (h : (createUser2InDomain state domainSid stub).response = some out) : out.length = 32 := by
  unfold createUser2InDomain at h
  split at h
  · cases h
  · split at h
    · cases h
    · exact length_of_createAccount h

theorem length_of_openUser {stub out : Bytes} (h : openUser stub = some out) : out.length = 24 := by
  have hread : Spends NdrRead.left (do
      let _domainHandle ← NdrRead.handle
      let _desiredAccess ← NdrRead.u32
      let rid ← NdrRead.u32
      return (NdrWriter.new.handle (userHandle rid)).u32 0 |>.buf)
      fun _ out => out.length = 24 := by
    refine NdrRead.spends_handle.bind fun _ _ _ => NdrRead.spends_u32.bind fun _ _ _ =>
      NdrRead.spends_u32.bind fun _ rid _ => .pure ?_
    simp only [NdrWriter.buf_u32, NdrWriter.buf_handle, NdrWriter.buf_new, List.length_append,
      Bytes.length_le, List.length_nil, length_userHandle]
  obtain ⟨-, -, hout⟩ := NdrRead.exists_of_run hread h
  exact hout

theorem length_of_queryInformationUser2 {stub out : Bytes}
    (h : queryInformationUser2 stub = some out) : out.length = 16 := by
  obtain ⟨handle, -, h⟩ := Option.bind_eq_some_iff.mp h
  obtain ⟨rid, -, h⟩ := Option.bind_eq_some_iff.mp h
  cases h
  rfl

theorem length_lookupDomainInSamServer (domainSid : Sid) :
    (lookupDomainInSamServer domainSid).length = 20 + 4 * domainSid.subAuthorities.length := by
  simp only [lookupDomainInSamServer, NdrWriter.buf_u32, NdrWriter.buf_sidDeferred,
    NdrWriter.buf_referentId, NdrWriter.buf_new, List.length_append, Bytes.length_le,
    length_sidBytes, List.length_nil]
  omega

theorem length_of_dispatch {state : SamrState} {domainSid : Sid} {opnum : UInt16}
    {stub out : Bytes} (hsid : domainSid.subAuthorities.length ≤ 255)
    (h : (dispatch state domainSid opnum stub).1 = .ok out) :
    out.length ≤ max stub.length 4096 := by
  have hconnect : connect5.length = 40 := rfl
  have hdomain := length_lookupDomainInSamServer domainSid
  have hopen : openDomain.length = 24 := rfl
  have hclose : closeHandle.length = 24 := rfl
  unfold dispatch at h
  dsimp only at h
  split_ifs at h
  all_goals simp only [Outcome.require_eq_ok, Option.some.injEq] at h
  · subst h
    omega
  · subst h
    omega
  · subst h
    omega
  · have := length_of_lookupNames h
    omega
  · have := length_of_createUser2 h
    omega
  · have := length_of_openUser h
    omega
  · have := length_of_queryInformationUser2 h
    omega
  · subst h
    omega

end Samr

end Samr

structure DomainInfo.Short (info : DomainInfo) : Prop where
  netbiosName : info.netbiosName.encodeUtf16.length ≤ 255
  dnsDomainName : info.dnsDomainName.encodeUtf16.length ≤ 255
  dnsForestName : info.dnsForestName.encodeUtf16.length ≤ 255
  domainSid : info.domainSid.subAuthorities.length ≤ 255

theorem length_headerBytes (referent : UInt32) (s : Str) : (headerBytes referent s).length = 8 := by
  simp only [headerBytes, List.length_append, Bytes.length_le]

namespace Lsarpc

def policyFixedPart (info : DomainInfo) : NdrWriter :=
  let w := ((NdrWriter.new.referentId).u16 policyDnsDomainInformation).u16 0
  let w := w.unicodeStringHeader info.netbiosName
  let w := w.unicodeStringHeader info.dnsDomainName
  let w := w.unicodeStringHeader info.dnsForestName
  (w.bytes (List.replicate 16 0)).referentId

theorem length_policyFixedPart (info : DomainInfo) : (policyFixedPart info).buf.length = 52 := by
  simp only [policyFixedPart, NdrWriter.buf_referentId, NdrWriter.buf_bytes,
    NdrWriter.buf_unicodeStringHeader, NdrWriter.buf_u16, NdrWriter.buf_new, List.length_append,
    Bytes.length_le, length_headerBytes, List.length_nil, List.length_replicate]

theorem length_policyDnsDomainInfo_le {info : DomainInfo} (h : info.Short) :
    (policyDnsDomainInfo info).length ≤ 4096 := by
  obtain ⟨hnetbios, hdomain, hforest, hsid⟩ := h
  have hfixed := length_policyFixedPart info
  have h₁ := (policyFixedPart info).length_unicodeStringDeferred_le info.netbiosName
  have h₂ := ((policyFixedPart info).unicodeStringDeferred
    info.netbiosName).length_unicodeStringDeferred_le info.dnsDomainName
  have h₃ := (((policyFixedPart info).unicodeStringDeferred info.netbiosName).unicodeStringDeferred
    info.dnsDomainName).length_unicodeStringDeferred_le info.dnsForestName
  change (((((policyFixedPart info).unicodeStringDeferred info.netbiosName).unicodeStringDeferred
    info.dnsDomainName).unicodeStringDeferred info.dnsForestName).sidDeferred
      info.domainSid |>.u32 0).buf.length ≤ 4096
  rw [NdrWriter.buf_u32, NdrWriter.buf_sidDeferred, List.length_append, List.length_append,
    Bytes.length_le, length_sidBytes]
  omega

theorem length_of_queryInformationPolicy2 {stub out : Bytes} {info : DomainInfo}
    (hinfo : info.Short) (h : queryInformationPolicy2 stub info = some out) :
    out.length ≤ 4096 := by
  obtain ⟨level, -, h⟩ := Option.bind_eq_some_iff.mp h
  split at h
  · cases h
    exact length_policyDnsDomainInfo_le hinfo
  · cases h

end Lsarpc

theorem length_of_lsarpcDispatch {info : DomainInfo} {opnum : UInt16} {stub out : Bytes}
    (hinfo : info.Short) (h : lsarpcDispatch info opnum stub = .ok out) : out.length ≤ 4096 := by
  unfold lsarpcDispatch at h
  split_ifs at h
  · cases h
    decide
  · cases h
    decide
  · exact Lsarpc.length_of_queryInformationPolicy2 hinfo (Outcome.require_eq_ok.mp h)

namespace Netlogon

theorem length_flipFirst (b : Bytes) : (flipFirst b).length = b.length := by
  cases b <;> rfl

theorem spends_primaryName : Spends NdrRead.left primaryName fun _ _ => True := by
  refine NdrRead.spends_u32.bind fun _ referent _ => ?_
  split
  · exact NdrRead.spends_unicodeStringDeferred.bind fun _ _ _ => NdrRead.spends_padTo4
  · exact .pure trivial

theorem spends_serverReqChallengeArgs :
    Spends NdrRead.left serverReqChallengeArgs fun _ challenge => challenge.length = 8 :=
  spends_primaryName.bind fun _ _ _ => NdrRead.spends_unicodeStringDeferred.bind fun _ _ _ =>
    (NdrRead.spends_bytes 8).mono fun _ _ h => h.2

theorem length_of_serverReqChallenge {session : Session} {stub out : Bytes}
    (h : (serverReqChallenge session stub).1 = some out) : out.length = 12 := by
  unfold serverReqChallenge at h
  split at h
  case h_1 => cases h
  case h_2 challenge hargs =>
    obtain ⟨-, -, hlength⟩ := NdrRead.exists_of_run spends_serverReqChallengeArgs hargs
    cases h
    rw [NdrWriter.buf_u32, NdrWriter.buf_bytes, List.length_append, List.length_append,
      length_flipFirst, hlength, Bytes.length_le]
    rfl

theorem length_of_computeCredential {fips : Primitives} {key challenge credential : Bytes}
    (h : computeCredential fips key challenge = .ok credential) : credential.length ≤ 8 := by
  obtain ⟨out, -, h⟩ := Outcome.bind_eq_ok.mp h
  cases h
  exact List.length_take_le 8 out

theorem length_of_authenticate {state : NetlogonState} {session : Session} {req : Authenticate3}
    {credential : Bytes} (h : authenticate state session req = .ok credential) :
    credential.length ≤ 8 := by
  obtain ⟨challenges, -, h⟩ := Outcome.bind_eq_ok.mp h
  obtain ⟨-, -, h⟩ := Outcome.bind_eq_ok.mp h
  obtain ⟨dns, -, h⟩ := Outcome.bind_eq_ok.mp h
  obtain ⟨dn, -, h⟩ := Outcome.bind_eq_ok.mp h
  obtain ⟨found, -, h⟩ := Outcome.bind_eq_ok.mp h
  obtain ⟨entry, -, h⟩ := Outcome.bind_eq_ok.mp h
  obtain ⟨ntowf, -, h⟩ := Outcome.bind_eq_ok.mp h
  obtain ⟨key, -, h⟩ := Outcome.bind_eq_ok.mp h
  obtain ⟨expected, -, h⟩ := Outcome.bind_eq_ok.mp h
  obtain ⟨-, -, h⟩ := Outcome.bind_eq_ok.mp h
  exact length_of_computeCredential (Outcome.mapError_eq_ok.mp h)

theorem length_authenticate3Response (credential : Bytes) (flags status : UInt32) :
    (authenticate3Response credential flags status).length = credential.length + 12 := by
  simp only [authenticate3Response, NdrWriter.buf_u32, NdrWriter.buf_bytes, NdrWriter.buf_new,
    List.length_append, Bytes.length_le, List.length_nil]
  omega

theorem length_of_serverAuthenticate3 {state : NetlogonState} {session : Session}
    {stub out : Bytes} (h : serverAuthenticate3 state session stub = .ok out) :
    out.length ≤ 20 := by
  unfold serverAuthenticate3 at h
  split at h
  case h_1 => cases h
  case h_2 req hreq =>
    split at h
    case h_1 credential hauth =>
      have := length_of_authenticate hauth
      cases h
      rw [length_authenticate3Response]
      omega
    case h_2 =>
      cases h
      rw [length_authenticate3Response]
      decide
    case h_3 => cases h

theorem length_of_dispatch {state : NetlogonState} {session : Session} {opnum : UInt16}
    {stub out : Bytes} (h : (dispatch state session opnum stub).1 = .ok out) :
    out.length ≤ 20 := by
  unfold dispatch at h
  split_ifs at h
  · have := length_of_serverReqChallenge (Outcome.require_eq_ok.mp h)
    omega
  · exact length_of_serverAuthenticate3 h

end Netlogon

theorem length_of_dispatch {app : AppState} {session : Netlogon.Session} {iface : BoundInterface}
    {opnum : UInt16} {stub out : Bytes} (hinfo : app.domainInfo.Short)
    (h : (dispatch app session iface opnum stub).1 = .ok out) :
    out.length ≤ max stub.length 4096 := by
  cases iface with
  | lsarpc =>
    have hout := length_of_lsarpcDispatch hinfo (Outcome.mapError_eq_ok.mp h)
    omega
  | samr => exact Samr.length_of_dispatch hinfo.domainSid (Outcome.mapError_eq_ok.mp h)
  | netlogon =>
    have hout := Netlogon.length_of_dispatch h
    omega

theorem length_of_parseCtxItems {n : Nat} {rest : Bytes} {items : List Pdu.BindCtxItem}
    (h : Pdu.parseCtxItems n rest = some items) : items.length = n := by
  induction n generalizing rest items with
  | zero =>
    cases h
    rfl
  | succ n ih =>
    rw [Pdu.parseCtxItems] at h
    split_ifs at h
    obtain ⟨tail, htail, h⟩ := Option.bind_eq_some_iff.mp h
    cases h
    exact congrArg Nat.succ (ih htail)

theorem length_of_parseBindBody {body : Bytes} {items : List Pdu.BindCtxItem}
    (h : Pdu.parseBindBody body = some items) : items.length < 256 := by
  unfold Pdu.parseBindBody at h
  split_ifs at h
  rw [length_of_parseCtxItems h]
  exact UInt8.toNat_lt _

theorem length_negotiate (bound : Option (UInt16 × BoundInterface)) (items : List Pdu.BindCtxItem) :
    (negotiate bound items).2.length = items.length := by
  induction items generalizing bound with
  | nil => rfl
  | cons item items ih =>
    rw [negotiate]
    cases BoundInterface.ofSyntax item.abstractSyntax with
    | none => exact congrArg Nat.succ (ih bound)
    | some iface => exact congrArg Nat.succ (ih _)

theorem Pdu.framed_frame {ptype : UInt8} {callId : UInt32} {body : Bytes}
    (h : (frame ptype callId body).length < 65536) :
    ((frame ptype callId body).u16At 8).toNat = (frame ptype callId body).length := by
  rw [fragLen_frame, UInt16.toNat_ofNat', ← length_frame ptype callId body]
  exact Nat.mod_eq_of_lt h

theorem Pdu.length_buildBindAck (callId : UInt32) (maxFrag : UInt16) (assocGroup : UInt32)
    (results : List CtxResult) :
    (buildBindAck callId maxFrag assocGroup results).length = 32 + 24 * results.length := by
  obtain ⟨fixed, hfixed, hack⟩ := buildBindAck_eq callId maxFrag assocGroup results
  rw [hack, List.length_append, hfixed, List.length_flatMap]
  simp [CtxResult.length_item, Nat.mul_comm]

theorem Pdu.framed_buildFault (callId : UInt32) (ctxId : UInt16) (status : UInt32) :
    ((buildFault callId ctxId status).u16At 8).toNat =
      (buildFault callId ctxId status).length :=
  framed_frame (by rw [← buildFault, length_buildFault]; decide)

theorem framed_of_serve {app app' : AppState} {conn conn' : Connection} {header : Pdu.PduHeader}
    {req : Pdu.RequestBody} {iface : BoundInterface} {reply : Bytes}
    (hinfo : app.domainInfo.Short) (hstub : req.stubData.length + 24 ≤ 65535)
    (h : serve app conn header req iface = some (reply, conn', app')) :
    (reply.u16At 8).toNat = reply.length := by
  have hlength : ∀ out, (dispatch app conn.netlogonSession iface req.opnum req.stubData).1 =
      .ok out → out.length ≤ max req.stubData.length 4096 := fun out => length_of_dispatch hinfo
  unfold serve at h
  split at h
  next result session app'' hdispatch =>
    rw [hdispatch] at hlength
    split at h
    next stub =>
      have hstub' := hlength stub rfl
      have hresponse := Pdu.length_buildResponse header.callId req.ctxId stub
      cases h
      exact Pdu.framed_frame (hresponse.trans_lt (by omega))
    next =>
      cases h
      exact Pdu.framed_buildFault _ _ _
    next =>
      cases h
      exact Pdu.framed_buildFault _ _ _
    next => cases h

theorem Pdu.length_of_parseRequestBody {body : Bytes} {req : RequestBody}
    (h : parseRequestBody body = some req) : req.stubData.length + 8 = body.length := by
  unfold parseRequestBody at h
  split at h
  · cases h
  · cases h
    rw [List.length_drop]
    omega

/-- The 16 bits of its length say how long an answer is. -/
theorem handlePdu_framed {app app' : AppState} {conn conn' : Connection} {pdu reply : Bytes}
    (hinfo : app.domainInfo.Short) (hpdu : pdu.length ≤ 65535)
    (h : handlePdu app conn pdu = some (reply, conn', app')) :
    (reply.u16At 8).toNat = reply.length := by
  unfold handlePdu at h
  split at h
  case h_1 => cases h
  case h_2 header fragLen hheader =>
    split_ifs at h
    · obtain ⟨items, hitems, h⟩ := Option.bind_eq_some_iff.mp h
      have hcount := length_of_parseBindBody hitems
      have hresults := length_negotiate conn.bound items
      have hack := Pdu.length_buildBindAck header.callId 4280 1 (negotiate conn.bound items).2
      cases h
      exact Pdu.framed_frame (hack.trans_lt (by omega))
    · obtain ⟨req, hreq, h⟩ := Option.bind_eq_some_iff.mp h
      have hbody := Pdu.length_of_parseRequestBody hreq
      have hlong : 16 ≤ pdu.length := by
        unfold Pdu.parseHeader at hheader
        split_ifs at hheader
        omega
      rw [List.length_drop] at hbody
      split at h
      · split at h
        · exact framed_of_serve hinfo (by omega) h
        · cases h
          exact Pdu.framed_buildFault _ _ _
      · cases h
        exact Pdu.framed_buildFault _ _ _

def samrConnection : Connection := ⟨some (0, .samr), .default⟩

def lookupDomainRequest : Bytes := Pdu.buildRequest 1 0 Samr.opnumLookupDomain []

theorem handlePdu_lookupDomain (app : AppState) :
    handlePdu app samrConnection lookupDomainRequest =
      some (Pdu.buildResponse 1 0 (Samr.lookupDomainInSamServer app.domainInfo.domainSid),
        samrConnection, app) := by
  rw [lookupDomainRequest, handlePdu_of_bound (Pdu.isRequest_buildRequest _ _ _ _) rfl]
  rfl

def joined (app : AppState) (name : Str) : AppState :=
  let reply := Samr.createUser2InDomain app.samr app.domainInfo.domainSid (Samr.createStub name)
  { app with samr := { app.samr with store := reply.store } }

def twoJoined : AppState :=
  joined (joined { Negotiation.corpApp with
    samr := { Samr.corpState with indexSpec := .new ["cn"] } } "WS1") "WS2"

def lookupNamesStub (names : List Str) : Bytes :=
  let count := UInt32.ofNat names.length
  let w := ((((NdrWriter.new.handle Samr.domainHandle).u32 count).u32 count).u32 0).u32 count
  (names.foldl .unicodeStringDeferred (names.foldl .unicodeStringHeader w)).buf

def lookupThree : Bytes :=
  Pdu.buildRequest 1 0 Samr.opnumLookupNames (lookupNamesStub ["WS2", "WS3", "WS1"])

-- Two RIDs with a zero for the name that is not there, the uses, SOME_NOT_MAPPED.
def threeFound : Bytes :=
  [3, 0x20000, 3, 1001, 0, 1000, 3, 0x20004, 3, 1, 0, 1, 0x107].flatMap (Bytes.le 4)

theorem handlePdu_lookupThree :
    handlePdu twoJoined samrConnection lookupThree =
      some (Pdu.buildResponse 1 0 threeFound, samrConnection, twoJoined) := by
  have hanswer : Samr.lookupNamesInDomain twoJoined.samr (lookupNamesStub ["WS2", "WS3", "WS1"]) =
      some threeFound := by decide +kernel
  have hdispatch : ∀ sid, Samr.dispatch twoJoined.samr sid Samr.opnumLookupNames
      (lookupNamesStub ["WS2", "WS3", "WS1"]) = (.ok threeFound, twoJoined.samr.store) := by
    intro sid
    rw [Samr.dispatch, hanswer]
    rfl
  rw [lookupThree, handlePdu_of_bound (Pdu.isRequest_buildRequest _ _ _ _) rfl]
  simp only [serve, dispatch, hdispatch]
  rfl

theorem handlePdu_framed_sample :
    handlePdu twoJoined samrConnection lookupThree =
        some (Pdu.buildResponse 1 0 threeFound, samrConnection, twoJoined) ∧
      (Pdu.buildResponse 1 0 threeFound).length = 76 ∧
      ((Pdu.buildResponse 1 0 threeFound).u16At 8).toNat =
        (Pdu.buildResponse 1 0 threeFound).length :=
  ⟨handlePdu_lookupThree, by decide +kernel,
    handlePdu_framed ⟨by decide, by decide, by decide, by decide⟩ (by decide +kernel)
      handlePdu_lookupThree⟩

theorem lookupDomain_of_length {sid : Sid} (h : sid.subAuthorities.length = 16384) :
    (Pdu.buildResponse 1 0 (Samr.lookupDomainInSamServer sid)).length = 65580 ∧
      ((Pdu.buildResponse 1 0 (Samr.lookupDomainInSamServer sid)).u16At 8).toNat = 44 := by
  have hlength : (Pdu.buildResponse 1 0 (Samr.lookupDomainInSamServer sid)).length = 65580 := by
    rw [Pdu.length_buildResponse, Samr.length_lookupDomainInSamServer, h]
  refine ⟨hlength, ?_⟩
  rw [Pdu.buildResponse, Pdu.length_frame] at hlength
  rw [Pdu.buildResponse, Pdu.fragLen_frame, hlength]
  rfl

def longSid : DomainInfo := ⟨"CORP", "corp", "corp", ⟨1, 5, List.replicate 16384 0⟩⟩

theorem handlePdu_longSid :
    (longSid.netbiosName.encodeUtf16.length ≤ 255 ∧
      longSid.dnsDomainName.encodeUtf16.length ≤ 255 ∧
      longSid.dnsForestName.encodeUtf16.length ≤ 255) ∧
    lookupDomainRequest.length ≤ 65535 ∧
    ∃ reply conn app,
      handlePdu { Negotiation.corpApp with domainInfo := longSid } samrConnection
        lookupDomainRequest = some (reply, conn, app) ∧
      reply.length = 65580 ∧ (reply.u16At 8).toNat = 44 := by
  have hsid : longSid.domainSid.subAuthorities.length = 16384 := List.length_replicate
  exact ⟨⟨by decide, by decide, by decide⟩, by decide, _, _, _, handlePdu_lookupDomain _,
    lookupDomain_of_length hsid⟩

end IronDirectory.Rpc
