import IronDirectory.Defs.Rpc.AccountName
import IronDirectory.Defs.Rpc.PduLaws
import IronDirectory.Defs.Rpc.Server

/-! What a `bind_ack` promises against what later requests get.  The server
keeps one binding, the last context it accepted, and never looks at the
transfer syntax. -/

namespace IronDirectory.Rpc

open Base

namespace Pdu

structure Offer where
  ctxId : UInt16
  abstractSyntax : Bytes
  transferSyntax : Bytes

def Offer.iface (o : Offer) : Option BoundInterface := BoundInterface.ofSyntax o.abstractSyntax

def Offer.binding (o : Offer) : Option (UInt16 × BoundInterface) := o.iface.map (o.ctxId, ·)

def Offer.item (o : Offer) : BindCtxItem := ⟨o.ctxId, o.abstractSyntax⟩

def offersIn : Nat → Bytes → List Offer
  | 0, _ => []
  | n + 1, rest =>
    ⟨rest.u16At 0, (rest.drop 4).take 20, (rest.drop 24).take 20⟩ :: offersIn n (rest.drop 44)

def offers (pdu : Bytes) : List Offer :=
  offersIn ((pdu.drop 16).getD 8 0).toNat ((pdu.drop 16).drop 12)

def reported (ack : Bytes) (k : Nat) : UInt16 := ack.u16At (32 + 24 * k)

def acceptedFrom (ack : Bytes) : Nat → List Offer → List Offer
  | _, [] => []
  | k, o :: os =>
    if reported ack k = 0 then o :: acceptedFrom ack (k + 1) os else acceptedFrom ack (k + 1) os

def accepted (pdu ack : Bytes) : List Offer := acceptedFrom ack 0 (offers pdu)

theorem items_of_parseCtxItems {n : Nat} {rest : Bytes} {items : List BindCtxItem}
    (h : parseCtxItems n rest = some items) : items = (offersIn n rest).map Offer.item := by
  induction n generalizing rest items with
  | zero =>
    cases h
    rfl
  | succ n ih =>
    rw [parseCtxItems] at h
    split at h
    · cases h
    · split at h
      · cases h
      · obtain ⟨items', hitems, h⟩ := Option.bind_eq_some_iff.mp h
        cases h
        rw [ih hitems]
        rfl

theorem items_of_parseBindBody {pdu : Bytes} {items : List BindCtxItem}
    (h : parseBindBody (pdu.drop 16) = some items) : items = (offers pdu).map Offer.item := by
  rw [parseBindBody] at h
  split at h
  · cases h
  · exact items_of_parseCtxItems h

theorem reported_buildBindAck {callId assocGroup : UInt32} {maxFrag : UInt16}
    {results : List CtxResult} {k : Nat} {r : CtxResult} (h : results[k]? = some r) :
    reported (buildBindAck callId maxFrag assocGroup results) k = r.result := by
  obtain ⟨fixed, hlen, hack⟩ := buildBindAck_eq callId maxFrag assocGroup results
  obtain ⟨hk, rfl⟩ := List.getElem?_eq_some_iff.mp h
  have hdrop : (results.flatMap CtxResult.item).drop (24 * k) =
      [] ++ (Bytes.le 2 results[k].result.toNat ++ (Bytes.le 2 results[k].reason.toNat ++
        (Uuid.ndrTransferSyntax ++ (results.drop (k + 1)).flatMap CtxResult.item))) := by
    rw [drop_items, List.drop_eq_getElem_cons hk, List.flatMap_cons, CtxResult.item]
    simp
  rw [reported, hack, ← Nat.add_zero (32 + 24 * k), Bytes.u16At_add, ← List.drop_drop,
    List.drop_left' hlen, hdrop]
  exact Bytes.u16At_append rfl _ _

def Offer.verdict (o : Offer) : CtxResult :=
  if o.iface.isSome then .accept else .rejectAbstractSyntaxNotSupported

theorem acceptedFrom_eq {callId assocGroup : UInt32} {maxFrag : UInt16} {results : List CtxResult}
    {k : Nat} {os : List Offer} (h : results.drop k = os.map Offer.verdict) :
    acceptedFrom (buildBindAck callId maxFrag assocGroup results) k os =
      os.filter fun o => o.iface.isSome := by
  induction os generalizing k with
  | nil => rfl
  | cons o os ih =>
    rw [List.map_cons] at h
    have hk : results[k]? = some o.verdict := by
      rw [← List.head?_drop, h]
      rfl
    have hrest : results.drop (k + 1) = os.map Offer.verdict := by
      rw [← List.drop_drop, h]
      rfl
    rw [acceptedFrom, reported_buildBindAck hk, ih hrest, Offer.verdict, List.filter_cons]
    split
    · rfl
    · rfl

end Pdu

theorem negotiate_eq (bound : Option (UInt16 × BoundInterface)) (os : List Pdu.Offer) :
    negotiate bound (os.map Pdu.Offer.item) =
      ((os.filterMap Pdu.Offer.binding).getLast?.or bound, os.map Pdu.Offer.verdict) := by
  induction os generalizing bound with
  | nil => rfl
  | cons o os ih =>
    cases h : BoundInterface.ofSyntax o.abstractSyntax with
    | none =>
      have hb : o.binding = none := by rw [Pdu.Offer.binding, Pdu.Offer.iface, h]; rfl
      simp [negotiate, Pdu.Offer.item, h, ih, hb, Pdu.Offer.verdict, Pdu.Offer.iface]
    | some iface =>
      have hb : o.binding = some (o.ctxId, iface) := by
        rw [Pdu.Offer.binding, Pdu.Offer.iface, h]
        rfl
      simp only [negotiate, List.map_cons, Pdu.Offer.item, h, ih, List.filterMap_cons, hb,
        Pdu.Offer.verdict, Pdu.Offer.iface, Option.isSome_some, if_true, Prod.mk.injEq, and_true]
      cases hl : (os.filterMap Pdu.Offer.binding).getLast? with
      | none =>
        rw [List.getLast?_eq_none_iff.mp hl]
        rfl
      | some b => simp [List.getLast?_cons, hl]

namespace Pdu

def IsBind (pdu : Bytes) : Prop := pdu.getD 2 0 = ptypeBind

instance decidableIsBind (pdu : Bytes) : Decidable (IsBind pdu) :=
  inferInstanceAs (Decidable (_ = _))

structure IsRequest (pdu : Bytes) (header : PduHeader) (req : RequestBody) : Prop where
  parsed : ∃ fragLen, parseHeader pdu = .ok (header, fragLen)
  ptype : header.ptype = ptypeRequest
  body : parseRequestBody (pdu.drop 16) = some req

end Pdu

theorem Pdu.isRequest_buildRequest (callId : UInt32) (ctxId opnum : UInt16) (stub : Bytes) :
    IsRequest (buildRequest callId ctxId opnum stub)
      ⟨ptypeRequest, pfcFirstFrag ||| pfcLastFrag, callId⟩ ⟨ctxId, opnum, stub⟩ :=
  ⟨⟨_, parseHeader_frame _ _ _⟩, rfl, parseRequestBody_buildRequest _ _ _ _⟩

theorem Pdu.buildResponse_ne_buildFault (callId : UInt32) (ctxId : UInt16) (stub : Bytes)
    (status : UInt32) : buildResponse callId ctxId stub ≠ buildFault callId ctxId status := by
  intro h
  have hptype : ptypeResponse = ptypeFault := congrArg (List.getD · 2 0) h
  exact absurd hptype (by decide)

theorem Pdu.buildFault_ne {callId : UInt32} {ctxId : UInt16} {status status' : UInt32}
    (hne : status ≠ status') : buildFault callId ctxId status ≠ buildFault callId ctxId status' := by
  intro h
  have hstatus := congrArg (Bytes.u32At · 24) h
  simp only [status_buildFault] at hstatus
  exact hne hstatus

theorem serve_eq_some {app app' : AppState} {conn conn' : Connection} {header : Pdu.PduHeader}
    {req : Pdu.RequestBody} {iface : BoundInterface} {reply : Bytes}
    (h : serve app conn header req iface = some (reply, conn', app')) :
    conn'.bound = conn.bound ∧
      reply ≠ Pdu.buildFault header.callId req.ctxId Pdu.faultUnkIf := by
  rw [serve] at h
  split at h
  next result session app'' _ =>
    split at h
    · cases h
      exact ⟨rfl, Pdu.buildResponse_ne_buildFault _ _ _ _⟩
    · cases h
      exact ⟨rfl, Pdu.buildFault_ne (by decide)⟩
    · cases h
      exact ⟨rfl, Pdu.buildFault_ne (by decide)⟩
    · cases h

theorem handleRequest_eq_some {app app' : AppState} {conn conn' : Connection}
    {header : Pdu.PduHeader} {body reply : Bytes}
    (h : handleRequest app conn header body = some (reply, conn', app')) :
    conn'.bound = conn.bound := by
  obtain ⟨req, -, h⟩ := Option.bind_eq_some_iff.mp h
  split at h
  · split at h
    · exact (serve_eq_some h).1
    · cases h
      rfl
  · cases h
    rfl

theorem handleBind_eq_some {app app' : AppState} {conn conn' : Connection}
    {header : Pdu.PduHeader} {pdu reply : Bytes}
    (h : handleBind app conn header (pdu.drop 16) = some (reply, conn', app')) :
    conn'.bound = ((Pdu.offers pdu).filterMap Pdu.Offer.binding).getLast?.or conn.bound ∧
      Pdu.accepted pdu reply = (Pdu.offers pdu).filter fun o => o.iface.isSome := by
  obtain ⟨items, hitems, h⟩ := Option.bind_eq_some_iff.mp h
  obtain rfl := Pdu.items_of_parseBindBody hitems
  rw [negotiate_eq] at h
  cases h
  exact ⟨rfl, Pdu.acceptedFrom_eq rfl⟩

theorem Pdu.ptype_of_parseHeader {pdu : Bytes} {header : PduHeader} {fragLen : UInt16}
    (h : parseHeader pdu = .ok (header, fragLen)) : header.ptype = pdu.getD 2 0 := by
  rw [parseHeader] at h
  split at h
  · cases h
  · split at h
    · cases h
    · cases h
      rfl

theorem handlePdu_eq_some {app app' : AppState} {conn conn' : Connection} {pdu reply : Bytes}
    (h : handlePdu app conn pdu = some (reply, conn', app')) :
    (Pdu.IsBind pdu ∧
      conn'.bound = ((Pdu.offers pdu).filterMap Pdu.Offer.binding).getLast?.or conn.bound ∧
      Pdu.accepted pdu reply = (Pdu.offers pdu).filter fun o => o.iface.isSome) ∨
    (¬ Pdu.IsBind pdu ∧ conn'.bound = conn.bound) := by
  rw [handlePdu] at h
  split at h
  · cases h
  · next header _ hheader =>
    rw [Pdu.ptype_of_parseHeader hheader] at h
    split at h
    next hbind => exact .inl ⟨hbind, handleBind_eq_some h⟩
    next hbind =>
      split at h
      · exact .inr ⟨hbind, handleRequest_eq_some h⟩
      · cases h

theorem handlePdu_buildBind {items : List Pdu.BindCtxItem} {results : List Pdu.CtxResult}
    {conn : Connection} {bound : Option (UInt16 × BoundInterface)} (app : AppState)
    (callId : UInt32) (maxFrag : UInt16) (hlen : items.length < 256)
    (h : ∀ i ∈ items, i.abstractSyntax.length = 20)
    (hneg : negotiate conn.bound items = (bound, results)) :
    handlePdu app conn (Pdu.buildBind callId maxFrag items) =
      some (Pdu.buildBindAck callId 4280 1 results, { conn with bound := bound }, app) := by
  have hheader : ∃ flags fragLen, Pdu.parseHeader (Pdu.buildBind callId maxFrag items) =
      .ok (⟨Pdu.ptypeBind, flags, callId⟩, fragLen) := ⟨_, _, Pdu.parseHeader_frame _ _ _⟩
  obtain ⟨flags, fragLen, hheader⟩ := hheader
  rw [handlePdu, hheader]
  simp only [if_true, handleBind, Pdu.parseBindBody_buildBind callId maxFrag hlen h]
  simp [hneg]

theorem handlePdu_request {app : AppState} {conn : Connection} {pdu : Bytes}
    {header : Pdu.PduHeader} {req : Pdu.RequestBody} (h : Pdu.IsRequest pdu header req) :
    handlePdu app conn pdu = handleRequest app conn header (pdu.drop 16) := by
  obtain ⟨⟨fragLen, hheader⟩, hptype, -⟩ := h
  rw [handlePdu, hheader]
  simp only [hptype, if_neg (show Pdu.ptypeRequest ≠ Pdu.ptypeBind by decide), if_true]

theorem handlePdu_of_bound {app : AppState} {conn : Connection} {pdu : Bytes}
    {header : Pdu.PduHeader} {req : Pdu.RequestBody} {iface : BoundInterface}
    (h : Pdu.IsRequest pdu header req) (hb : conn.bound = some (req.ctxId, iface)) :
    handlePdu app conn pdu = serve app conn header req iface := by
  rw [handlePdu_request h, handleRequest, h.body, hb]
  exact if_pos rfl

theorem handlePdu_of_unbound {conn : Connection} {pdu : Bytes} {header : Pdu.PduHeader}
    {req : Pdu.RequestBody} (app : AppState) (h : Pdu.IsRequest pdu header req)
    (hb : ∀ iface, conn.bound ≠ some (req.ctxId, iface)) :
    handlePdu app conn pdu =
      some (Pdu.buildFault header.callId req.ctxId Pdu.faultUnkIf, conn, app) := by
  rw [handlePdu_request h, handleRequest, h.body]
  cases hc : conn.bound with
  | none => rfl
  | some b =>
    refine if_neg fun hid => hb b.2 ?_
    rw [hc, ← hid]

structure Negotiation where
  conn : Connection
  live : List (UInt16 × BoundInterface)

structure Exchange where
  app : AppState
  pdu : Bytes
  reply : Bytes

namespace Negotiation

def start : Negotiation := ⟨.new, []⟩

def Renegotiated (pdu : Bytes) (ctxId : UInt16) : Prop :=
  ∃ o ∈ Pdu.offers pdu, o.ctxId = ctxId

instance decidableRenegotiated (pdu : Bytes) (ctxId : UInt16) :
    Decidable (Renegotiated pdu ctxId) :=
  inferInstanceAs (Decidable (∃ o ∈ Pdu.offers pdu, o.ctxId = ctxId))

def liveAfter (live : List (UInt16 × BoundInterface)) (pdu reply : Bytes) :
    List (UInt16 × BoundInterface) :=
  if Pdu.IsBind pdu then
    live.filter (fun l => ¬ Renegotiated pdu l.1) ++
      (Pdu.accepted pdu reply).filterMap Pdu.Offer.binding
  else live

def Step (n : Negotiation) (x : Exchange) (n' : Negotiation) : Prop :=
  (∃ app', handlePdu x.app n.conn x.pdu = some (x.reply, n'.conn, app')) ∧
    n'.live = liveAfter n.live x.pdu x.reply

/-- A context is reported accepted only if its interface is served and its
transfer syntax is NDR 2.0. -/
def Honest (x : Exchange) : Prop :=
  Pdu.IsBind x.pdu → ∀ o ∈ Pdu.accepted x.pdu x.reply,
    o.iface.isSome ∧ o.transferSyntax = Uuid.ndrTransferSyntax

/-- A request on a live context is dispatched to the context's interface, and
is not answered with the unknown-interface fault. -/
def Usable (n : Negotiation) : Prop :=
  ∀ l ∈ n.live, ∀ app pdu header req, Pdu.IsRequest pdu header req → req.ctxId = l.1 →
    handlePdu app n.conn pdu = serve app n.conn header req l.2 ∧
      ∀ reply conn' app', handlePdu app n.conn pdu = some (reply, conn', app') →
        reply ≠ Pdu.buildFault header.callId req.ctxId Pdu.faultUnkIf

def OffersNdr (pdu : Bytes) : Prop :=
  Pdu.IsBind pdu → ∀ o ∈ Pdu.offers pdu, o.iface.isSome →
    o.transferSyntax = Uuid.ndrTransferSyntax

/-- A bind that names a served interface names one under one identifier, and
offers every live context again. -/
def OffersOne (live : List (UInt16 × BoundInterface)) (pdu : Bytes) : Prop :=
  Pdu.IsBind pdu → ∀ b ∈ (Pdu.offers pdu).filterMap Pdu.Offer.binding,
    (∀ b' ∈ (Pdu.offers pdu).filterMap Pdu.Offer.binding, b' = b) ∧
      ∀ l ∈ live, Renegotiated pdu l.1

def Single (n : Negotiation) : Prop := ∀ l ∈ n.live, n.conn.bound = some l

theorem Single.usable {n : Negotiation} (h : n.Single) : n.Usable := by
  intro l hl app pdu header req hreq hctx
  have heq : handlePdu app n.conn pdu = serve app n.conn header req l.2 := by
    refine handlePdu_of_bound hreq ?_
    rw [hctx, h l hl]
  refine ⟨heq, fun reply conn' app' h' => ?_⟩
  exact (serve_eq_some (heq.symm.trans h')).2

def corpApp : AppState where
  domainInfo := ⟨"CORP", "corp", "corp", ⟨1, 5, [21, 1, 2, 3]⟩⟩
  samr := Samr.corpState
  netlogon := ⟨Samr.corpState.store, Samr.corpState.baseDn, ⟨fun _ d => .ok d, fun _ d => .ok d⟩⟩

def probe : BoundInterface → UInt16
  | .lsarpc => Lsarpc.opnumOpenPolicy2
  | .samr => Samr.opnumConnect5
  | .netlogon => Netlogon.opnumServerReqChallenge

theorem serve_probe_ne {iface iface' : BoundInterface} (hne : iface' ≠ iface) (conn : Connection)
    (header : Pdu.PduHeader) (ctxId : UInt16) :
    serve corpApp conn header ⟨ctxId, probe iface, []⟩ iface' ≠
      serve corpApp conn header ⟨ctxId, probe iface, []⟩ iface := by
  have hunknown : ∃ conn' app', serve corpApp conn header ⟨ctxId, probe iface, []⟩ iface' =
      some (Pdu.buildFault header.callId ctxId Pdu.faultOpRngError, conn', app') := by
    cases iface <;> cases iface' <;> first | exact absurd rfl hne | exact ⟨_, _, rfl⟩
  have hknown : ∃ reply conn' app', serve corpApp conn header ⟨ctxId, probe iface, []⟩ iface =
      some (reply, conn', app') ∧
        reply ≠ Pdu.buildFault header.callId ctxId Pdu.faultOpRngError := by
    cases iface with
    | lsarpc => exact ⟨_, _, _, rfl, Pdu.buildResponse_ne_buildFault _ _ _ _⟩
    | samr => exact ⟨_, _, _, rfl, Pdu.buildResponse_ne_buildFault _ _ _ _⟩
    | netlogon => exact ⟨_, _, _, rfl, Pdu.buildFault_ne (by decide)⟩
  obtain ⟨conn₁, app₁, h₁⟩ := hunknown
  obtain ⟨reply, conn₂, app₂, h₂, hreply⟩ := hknown
  rw [h₁, h₂]
  intro h
  cases h
  exact hreply rfl

theorem Usable.single {n : Negotiation} (h : n.Usable) : n.Single := by
  rintro ⟨ctxId, iface⟩ hl
  have hreq := Pdu.isRequest_buildRequest 0 ctxId (probe iface) []
  obtain ⟨hserve, hfault⟩ := h _ hl corpApp _ _ _ hreq rfl
  by_cases hb : ∃ iface', n.conn.bound = some (ctxId, iface')
  · obtain ⟨iface', hb⟩ := hb
    rw [handlePdu_of_bound hreq hb] at hserve
    by_contra hne
    refine serve_probe_ne ?_ n.conn _ _ hserve
    rintro rfl
    exact hne hb
  · have hunbound := handlePdu_of_unbound corpApp hreq fun iface' hc => hb ⟨iface', hc⟩
    exact absurd rfl (hfault _ _ _ hunbound)

theorem mem_bindings {os : List Pdu.Offer} {b : UInt16 × BoundInterface}
    (h : b ∈ os.filterMap Pdu.Offer.binding) : ∃ o ∈ os, o.ctxId = b.1 := by
  obtain ⟨o, ho, hb⟩ := List.mem_filterMap.mp h
  obtain ⟨iface, -, rfl⟩ := Option.map_eq_some_iff.mp hb
  exact ⟨o, ho, rfl⟩

theorem bindings_filter (os : List Pdu.Offer) :
    (os.filter fun o => o.iface.isSome).filterMap Pdu.Offer.binding =
      os.filterMap Pdu.Offer.binding := by
  rw [List.filterMap_filter]
  refine List.filterMap_congr fun o _ => ?_
  cases h : o.iface with
  | none => simp [Pdu.Offer.binding, h]
  | some iface => simp

theorem Single.step_iff {n n' : Negotiation} {x : Exchange} (h : n.Single) (hstep : Step n x n') :
    n'.Single ↔ OffersOne n.live x.pdu := by
  obtain ⟨⟨app', hpdu⟩, hlive⟩ := hstep
  cases handlePdu_eq_some hpdu with
  | inr hother =>
    obtain ⟨hnot, hbound⟩ := hother
    rw [liveAfter, if_neg hnot] at hlive
    refine iff_of_true ?_ fun hbind => absurd hbind hnot
    intro l hl
    rw [hbound]
    exact h l (hlive ▸ hl)
  | inl hbind =>
    obtain ⟨hbind, hbound, hacc⟩ := hbind
    rw [liveAfter, if_pos hbind, hacc, bindings_filter] at hlive
    rw [Single, hlive, hbound]
    constructor
    · intro hs _ b hb
      have hall : ∀ b' ∈ (Pdu.offers x.pdu).filterMap Pdu.Offer.binding, b' = b := fun b' hb' =>
        Option.some.inj ((hs b' (List.mem_append_right _ hb')).symm.trans
          (hs b (List.mem_append_right _ hb)))
      refine ⟨hall, fun l hl => ?_⟩
      by_contra hkept
      have hl' := hs l (List.mem_append_left _ (List.mem_filter.mpr ⟨hl, by simpa using hkept⟩))
      obtain rfl := Option.some.inj (hl'.symm.trans (hs b (List.mem_append_right _ hb)))
      exact hkept (mem_bindings hb)
    · intro hone l hl
      cases hlast : ((Pdu.offers x.pdu).filterMap Pdu.Offer.binding).getLast? with
      | none =>
        rw [List.getLast?_eq_none_iff.mp hlast, List.append_nil] at hl
        exact h l (List.mem_of_mem_filter hl)
      | some b =>
        have hb := List.mem_of_getLast? hlast
        obtain ⟨hall, hagain⟩ := hone hbind b hb
        cases List.mem_append.mp hl with
        | inl hold =>
          have hkept := List.mem_filter.mp hold
          exact absurd (hagain l hkept.1) (by simpa using hkept.2)
        | inr hnew => rw [hall l hnew, Option.some_or]

theorem honest_iff {n n' : Negotiation} {x : Exchange} (hstep : Step n x n') :
    Honest x ↔ OffersNdr x.pdu := by
  obtain ⟨⟨app', hpdu⟩, -⟩ := hstep
  refine forall_congr' fun hbind => ?_
  cases handlePdu_eq_some hpdu with
  | inr hother => exact absurd hbind hother.1
  | inl h =>
    rw [h.2.2]
    constructor
    · intro hall o ho hserved
      exact (hall o (List.mem_filter.mpr ⟨ho, hserved⟩)).2
    · intro hall o ho
      obtain ⟨ho, hserved⟩ := List.mem_filter.mp ho
      exact ⟨hserved, hall o ho hserved⟩

/-- On a connection, acceptances are honest and accepted contexts stay usable
exactly if every bind offers NDR for what is served, and offers one served
context at a time. -/
theorem negotiation_iff {n : Negotiation} {steps : List (Negotiation × Exchange)}
    (hrun : Run Step start steps n) :
    ((∀ x ∈ steps, Honest x.2) ∧ ∀ m ∈ Run.states steps n, m.Usable) ↔
      ∀ x ∈ steps, OffersNdr x.2.pdu ∧ OffersOne x.1.live x.2.pdu := by
  have hstart : start.Single := fun _ hl => absurd hl List.not_mem_nil
  have hhonest : (∀ x ∈ steps, Honest x.2) ↔ ∀ x ∈ steps, OffersNdr x.2.pdu := by
    refine forall₂_congr fun x hx => ?_
    obtain ⟨_, hstep⟩ := hrun.step_of_mem hx
    exact honest_iff hstep
  have husable : (∀ m ∈ Run.states steps n, m.Usable) ↔
      ∀ x ∈ steps, OffersOne x.1.live x.2.pdu :=
    Run.forall_iff_guard (V := fun _ => True) (fun _ h => h.usable)
      (fun _ _ _ h _ hG hstep => (h.step_iff hstep).mpr hG)
      (fun _ _ _ h _ hstep hQ => (h.step_iff hstep).mp hQ.single) hrun hstart (fun _ _ => trivial)
  rw [hhonest, husable, ← forall₂_and]

def oneContext : Bytes := Pdu.buildBind 1 4280 [⟨0, Uuid.samrSyntax⟩]

theorem negotiation_one_context :
    ∃ reply n, Step start ⟨corpApp, oneContext, reply⟩ n ∧ n.live = [(0, .samr)] ∧ n.Usable := by
  have hstep : Step start ⟨corpApp, oneContext, Pdu.buildBindAck 1 4280 1 [.accept]⟩
    ⟨⟨some (0, .samr), .default⟩, [(0, .samr)]⟩ :=
    ⟨⟨corpApp, handlePdu_buildBind _ _ _ (by decide) (by decide) (by decide +kernel)⟩,
      by decide +kernel⟩
  refine ⟨_, _, hstep, rfl, ?_⟩
  refine ((negotiation_iff (.cons hstep (.nil _))).mpr ?_).2 _ (Run.last_mem _ _)
  intro x hx
  obtain rfl := List.mem_singleton.mp hx
  refine ⟨fun _ => ?_, fun _ => ?_⟩
  · decide +kernel
  · decide +kernel

def twoContexts : Bytes := Pdu.buildBind 1 4280 [⟨0, Uuid.samrSyntax⟩, ⟨1, Uuid.lsarpcSyntax⟩]

def lastBound : Connection := ⟨some (1, .lsarpc), .default⟩

theorem first_context_unknown :
    handlePdu corpApp lastBound (Pdu.buildRequest 2 0 Samr.opnumConnect5 []) =
      some (Pdu.buildFault 2 0 Pdu.faultUnkIf, lastBound, corpApp) := by
  have hreq := Pdu.isRequest_buildRequest 2 0 Samr.opnumConnect5 []
  have hunbound : ∀ iface, lastBound.bound ≠ some (0, iface) := by
    intro iface hbound
    have hid : (1 : UInt16) = 0 := congrArg Prod.fst (Option.some.inj hbound)
    exact absurd hid (by decide)
  have h := handlePdu_of_unbound corpApp hreq hunbound
  exact h

def otherTransfer : Bytes :=
  Pdu.frame Pdu.ptypeBind 1 (Bytes.le 2 4280 ++ Bytes.le 2 4280 ++ Bytes.le 4 0 ++
    [1, 0] ++ Bytes.le 2 0 ++ Bytes.le 2 0 ++ [1, 0] ++ Uuid.samrSyntax ++ Uuid.lsarpcSyntax)

theorem negotiation_fails :
    (∃ reply n, Step start ⟨corpApp, twoContexts, reply⟩ n ∧
      n.live = [(0, .samr), (1, .lsarpc)] ∧
      handlePdu corpApp n.conn (Pdu.buildRequest 2 0 Samr.opnumConnect5 []) =
        some (Pdu.buildFault 2 0 Pdu.faultUnkIf, n.conn, corpApp) ∧ ¬ n.Usable) ∧
    ∃ reply n, Step start ⟨corpApp, otherTransfer, reply⟩ n ∧
      (Pdu.accepted otherTransfer reply).map Pdu.Offer.transferSyntax = [Uuid.lsarpcSyntax] ∧
      ¬ Honest ⟨corpApp, otherTransfer, reply⟩ := by
  constructor
  · have hstep : Step start ⟨corpApp, twoContexts, Pdu.buildBindAck 1 4280 1 [.accept, .accept]⟩
      ⟨lastBound, [(0, .samr), (1, .lsarpc)]⟩ :=
      ⟨⟨corpApp, handlePdu_buildBind _ _ _ (by decide) (by decide) (by decide +kernel)⟩,
      by decide +kernel⟩
    refine ⟨_, _, hstep, rfl, first_context_unknown, fun h => ?_⟩
    have hsingle : lastBound.bound = some (0, .samr) :=
      Usable.single h (0, .samr) List.mem_cons_self
    exact absurd hsingle (by decide)
  · have hstep : Step start ⟨corpApp, otherTransfer, Pdu.buildBindAck 1 4280 1 [.accept]⟩
      ⟨⟨some (0, .samr), .default⟩, [(0, .samr)]⟩ := ⟨⟨corpApp, rfl⟩, by decide +kernel⟩
    refine ⟨_, _, hstep, by decide +kernel, ?_⟩
    rw [honest_iff hstep]
    intro h
    have hndr := h (by decide +kernel)
    revert hndr
    decide +kernel

end Negotiation

end IronDirectory.Rpc
