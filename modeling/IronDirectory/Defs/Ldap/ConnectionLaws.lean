import IronDirectory.Defs.Ldap.Connection

namespace IronDirectory.Ldap

open Base Crypto Kerberos Naming Storage Kdc

theorem wrapToken_eq_ok {c : Cipher} {draw : Nat} {enctype : Enctype} {key : Bytes}
    {isSealed : Bool} {seq : UInt64} {plain : Bytes} {w : WrapToken c}
    (h : wrapToken c draw enctype key isSealed seq plain = .ok w) :
    w.sessionKey = key ∧ w.enctype = enctype ∧ w.isSealed = isSealed ∧ w.seq = seq := by
  unfold wrapToken at h
  split at h
  · cases h
    exact ⟨rfl, rfl, rfl, rfl⟩
  · cases h

def Accepts (p : Provider) (env : Env) (store : Store) (req : BindRequest) (ctx : Context) :
    Prop :=
  ∃ token partition a, req.version = 3 ∧ req.authentication = .sasl "GSSAPI" (some token) ∧
    store.registry.iter.head? = some partition ∧
    Gssapi.accept p.platform env token (Gssapi.lookupKeys store partition.baseDn) = .ok a ∧
    ctx = ⟨a.sessionKey, a.enctype, a.clientPrincipal⟩

def PasswordVerified (p : Provider) (store : Store) (req : BindRequest) : Prop :=
  ∃ password stored, req.version = 3 ∧ req.authentication = .simple password ∧
    storedPassword store req.name = some stored ∧
    verifyPassword p.derive password stored = .ok true

def Unwraps (p : Provider) (req : BindRequest) (ctx : Context) : Prop :=
  ∃ response plain, req.authentication = .sasl "GSSAPI" (some response) ∧
    Gssapi.unwrap p.platform.cipher ctx.enctype ctx.sessionKey 24 response = .ok plain

def SaslState.Active : SaslState → Prop
  | .securityLayerActive _ _ _ _ => True
  | _ => False

instance (sasl : SaslState) : Decidable sasl.Active :=
  match sasl with
  | .securityLayerActive _ _ _ _ => isTrue trivial
  | .none | .awaitingApRepAck _ | .awaitingSecurityLayerAck _ => isFalse id

/-- The ways a bind can end, by the state it arrives in. -/
inductive BindCase (p : Provider) (env : Env) (store : Store) (req : BindRequest) :
    SaslState → BindOutcome p.platform.cipher → Prop
  | reset {sasl : SaslState} {code : ResultCode} {text : Str} :
    code ≠ .saslBindInProgress → (sasl.Active → p.fips = true → ¬ req.IsGssapi) →
      BindCase p env store req sasl (.answered code text .none)
  | simple {sasl : SaslState} :
    PasswordVerified p store req → ¬ req.IsGssapi →
      BindCase p env store req sasl
        ⟨⟨.success, "", none⟩, some ("dn:" ++ req.name), .none, none, none⟩
  | accepted {ctx : Context} {tok : Bytes} :
    req.IsGssapi → Accepts p env store req ctx →
      BindCase p env store req .none
        ⟨⟨.saslBindInProgress, "", some tok⟩, none, .awaitingApRepAck ctx, some ctx, none⟩
  | acceptedChallenged {ctx : Context} {w : WrapToken p.platform.cipher} :
    req.IsGssapi → Accepts p env store req ctx → w.sessionKey = ctx.sessionKey →
      w.enctype = ctx.enctype → w.seq = 0 →
      BindCase p env store req .none
        ⟨⟨.saslBindInProgress, "", some w.bytes⟩, none, .awaitingSecurityLayerAck ctx, some ctx,
          some w⟩
  | acceptedFailed {ctx : Context} {text : Str} :
    Accepts p env store req ctx →
      BindCase p env store req .none ⟨⟨.operationsError, text, none⟩, none, .none, some ctx, none⟩
  | challenged {ctx : Context} {w : WrapToken p.platform.cipher} :
    req.IsGssapi → w.sessionKey = ctx.sessionKey → w.enctype = ctx.enctype → w.seq = 0 →
      BindCase p env store req (.awaitingApRepAck ctx)
        ⟨⟨.saslBindInProgress, "", some w.bytes⟩, none, .awaitingSecurityLayerAck ctx, none, some w⟩
  | finished {ctx : Context} {sasl : SaslState} :
    req.IsGssapi → Unwraps p req ctx →
      (sasl = .none ∨ ∃ b, sasl = .securityLayerActive ctx.sessionKey ctx.enctype b 1) →
      BindCase p env store req (.awaitingSecurityLayerAck ctx) (.bound ctx sasl)
  | rebind {key : Bytes} {enctype : Enctype} {isSealed : Bool} {seq : UInt64} {text : Str} :
    req.IsGssapi →
      BindCase p env store req (.securityLayerActive key enctype isSealed seq)
        (.answered .unwillingToPerform text (.securityLayerActive key enctype isSealed seq))

section Bind

variable {p : Provider} {env : Env} {store : Store} {req : BindRequest}

theorem challenged_cases (draw : Nat) (ctx : Context) (accepted : Option Context) :
    (∃ w : WrapToken p.platform.cipher, w.sessionKey = ctx.sessionKey ∧ w.enctype = ctx.enctype ∧
      w.seq = 0 ∧ BindOutcome.challenged _ draw ctx accepted =
        ⟨⟨.saslBindInProgress, "", some w.bytes⟩, none, .awaitingSecurityLayerAck ctx, accepted,
          some w⟩) ∨
    ∃ text, BindOutcome.challenged p.platform.cipher draw ctx accepted =
      ⟨⟨.operationsError, text, none⟩, none, .none, accepted, none⟩ := by
  unfold BindOutcome.challenged
  split
  · next w hw =>
    obtain ⟨hkey, henctype, _, hseq⟩ := wrapToken_eq_ok hw
    exact .inl ⟨w, hkey, henctype, hseq, rfl⟩
  · exact .inr ⟨_, rfl⟩

theorem acceptContext_case {credentials : Option Bytes} {out : BindOutcome p.platform.cipher}
    (hversion : req.version = 3) (hauth : req.authentication = .sasl "GSSAPI" credentials)
    (h : acceptContext p env store credentials = some out) :
    BindCase p env store req .none out := by
  have hgss : req.IsGssapi := ⟨hversion, credentials, hauth⟩
  unfold acceptContext at h
  split at h
  · cases h
    exact .reset (by decide) fun hactive => hactive.elim
  · next token =>
    split at h
    · cases h
      exact .reset (by decide) fun hactive => hactive.elim
    · next partition hpartition =>
      split at h
      · cases h
      · cases h
        exact .reset (by decide) fun hactive => hactive.elim
      · next a ha =>
        have haccepts : Accepts p env store req ⟨a.sessionKey, a.enctype, a.clientPrincipal⟩ :=
          ⟨token, partition, a, hversion, hauth, hpartition, ha, rfl⟩
        split at h
        · cases h
          exact .accepted hgss haccepts
        · cases h
          cases challenged_cases (p := p) (env.draw 1)
              ⟨a.sessionKey, a.enctype, a.clientPrincipal⟩
              (some ⟨a.sessionKey, a.enctype, a.clientPrincipal⟩) with
          | inl hw =>
            obtain ⟨w, hkey, henctype, hseq, hout⟩ := hw
            rw [hout]
            exact .acceptedChallenged hgss haccepts hkey henctype hseq
          | inr htext =>
            obtain ⟨text, hout⟩ := htext
            rw [hout]
            exact .acceptedFailed haccepts

theorem finishContext_case {credentials : Option Bytes} {ctx : Context}
    (hversion : req.version = 3) (hauth : req.authentication = .sasl "GSSAPI" credentials) :
    BindCase p env store req (.awaitingSecurityLayerAck ctx) (finishContext p ctx credentials) := by
  have hgss : req.IsGssapi := ⟨hversion, credentials, hauth⟩
  unfold finishContext
  split
  · exact .reset (by decide) fun hactive => hactive.elim
  · next response =>
    split
    · exact .reset (by decide) fun hactive => hactive.elim
    · next plain hplain =>
      have hunwraps : Unwraps p req ctx := ⟨response, plain, hauth, hplain⟩
      split
      · exact .finished hgss hunwraps (.inl rfl)
      · split
        · exact .finished hgss hunwraps (.inr ⟨false, rfl⟩)
        · split
          · exact .finished hgss hunwraps (.inr ⟨true, rfl⟩)
          · exact .reset (by decide) fun hactive => hactive.elim

theorem handleSaslBind_case {mechanism : Str} {credentials : Option Bytes} {sasl : SaslState}
    {out : BindOutcome p.platform.cipher} (hversion : req.version = 3)
    (hauth : req.authentication = .sasl mechanism credentials)
    (h : handleSaslBind p env store mechanism credentials sasl = some out) :
    BindCase p env store req sasl out := by
  unfold handleSaslBind at h
  split at h
  case isTrue hmech =>
    cases h
    refine .reset (by decide) fun _ _ hgss => ?_
    obtain ⟨_, c, hc⟩ := hgss
    rw [hauth] at hc
    cases hc
    exact hmech rfl
  case isFalse hmech =>
    have hmech : mechanism = "GSSAPI" := not_not.mp hmech
    subst hmech
    split at h
    case isTrue hfips =>
      cases h
      exact .reset (by decide) fun _ hf => absurd hf (by simp [hfips])
    case isFalse =>
      cases sasl with
      | none => exact acceptContext_case hversion hauth h
      | awaitingApRepAck ctx =>
        cases h
        cases challenged_cases (p := p) (env.draw 1) ctx none with
        | inl hw =>
          obtain ⟨w, hkey, henctype, hseq, hout⟩ := hw
          rw [hout]
          exact .challenged ⟨hversion, credentials, hauth⟩ hkey henctype hseq
        | inr htext =>
          obtain ⟨text, hout⟩ := htext
          rw [hout]
          exact .reset (by decide) fun hactive => hactive.elim
      | awaitingSecurityLayerAck ctx =>
        cases h
        exact finishContext_case hversion hauth
      | securityLayerActive key enctype isSealed seq =>
        cases h
        exact .rebind ⟨hversion, credentials, hauth⟩

theorem handleBind_case {sasl : SaslState} {out : BindOutcome p.platform.cipher}
    (h : handleBind p env store req sasl = some out) : BindCase p env store req sasl out := by
  unfold handleBind at h
  split at h
  case isTrue hversion =>
    cases h
    exact .reset (by decide) fun _ _ hgss => hversion hgss.1
  case isFalse hversion =>
    have hversion : req.version = 3 := not_not.mp hversion
    split at h
    · next password hauth =>
      have hgss : ¬ req.IsGssapi := by
        rintro ⟨_, c, hc⟩
        rw [hauth] at hc
        cases hc
      split at h
      · cases h
        exact .reset (by decide) fun _ _ => hgss
      · obtain ⟨code, hcode, rfl⟩ := Option.map_eq_some_iff.mp h
        unfold authenticateSimple at hcode
        split at hcode
        · split at hcode
          · cases hcode
            exact .reset (by decide) fun _ _ => hgss
          · next stored hstored =>
            split at hcode
            · next hverify =>
              cases hcode
              exact .simple ⟨password, stored, hversion, hauth, hstored, hverify⟩ hgss
            · cases hcode
            · cases hcode
              exact .reset (by decide) fun _ _ => hgss
        · cases hcode
          exact .reset (by decide) fun _ _ => hgss
    · next mechanism credentials hauth => exact handleSaslBind_case hversion hauth h
    · next hauth =>
      cases h
      refine .reset (by decide) fun _ _ hgss => ?_
      obtain ⟨_, c, hc⟩ := hgss
      rw [hauth] at hc
      cases hc

end Bind

section Round

variable {R A : Type} {server : Server R A}

theorem sendResponse_active {draw : Nat} {key : Bytes} {e : Enctype} {b : Bool} {n : UInt64}
    {msg : Message (Response A)} {f : Frame server.platform.cipher} {sasl : SaslState}
    (h : sendResponse server draw (.securityLayerActive key e b n) msg = some (f, sasl)) :
    ∃ w, f = .wrapped w ∧ w.sessionKey = key ∧ w.enctype = e ∧ w.isSealed = b ∧ w.seq = n ∧
      sasl = .securityLayerActive key e b (n + 1) := by
  simp only [sendResponse] at h
  split at h
  · cases h
  · split at h
    · cases h
    · split at h
      · cases h
      · next w hw =>
        cases h
        obtain ⟨hkey, he, hb, hn⟩ := wrapToken_eq_ok hw
        exact ⟨w, rfl, hkey, he, hb, hn, rfl⟩

theorem sendResponse_inactive {draw : Nat} {via sasl : SaslState} {msg : Message (Response A)}
    {f : Frame server.platform.cipher} (hvia : ¬ via.Active)
    (h : sendResponse server draw via msg = some (f, sasl)) : (∃ b, f = .bare b) ∧ sasl = via := by
  unfold sendResponse at h
  split at h
  · exact absurd trivial hvia
  · split at h
    · cases h
    · cases h
      exact ⟨⟨_, rfl⟩, rfl⟩

inductive Sends (server : Server R A) :
    SaslState → List (Event server.platform.cipher) → SaslState → Prop
  | nil (sasl : SaslState) : Sends server sasl [] sasl
  | cons {sasl sasl' sasl'' : SaslState} {draw : Nat} {msg : Message (Response A)}
      {f : Frame server.platform.cipher} {evs : List (Event server.platform.cipher)} :
    sendResponse server draw sasl msg = some (f, sasl') → Sends server sasl' evs sasl'' →
      Sends server sasl (.frame f :: evs) sasl''

structure Sent (server : Server R A) (s t : Conn server.platform.cipher) : Prop where
  identity : t.boundIdentity = s.boundIdentity
  history : ∃ evs, t.history = s.history ++ evs ∧ Sends server s.sasl evs t.sasl

theorem Sends.append {a b c : SaslState} {xs ys : List (Event server.platform.cipher)}
    (h : Sends server a xs b) (h' : Sends server b ys c) : Sends server a (xs ++ ys) c := by
  induction h with
  | nil => exact h'
  | cons hsend _ ih => exact .cons hsend (ih h')

theorem Sent.refl (s : Conn server.platform.cipher) : Sent server s s :=
  ⟨rfl, [], by simp, .nil _⟩

theorem Sent.trans {s t u : Conn server.platform.cipher} (h : Sent server s t)
    (h' : Sent server t u) : Sent server s u := by
  obtain ⟨xs, hx, hxs⟩ := h.history
  obtain ⟨ys, hy, hys⟩ := h'.history
  exact ⟨h'.identity.trans h.identity, xs ++ ys, by rw [hy, hx, List.append_assoc],
    hxs.append hys⟩

theorem sendVia_sends (i : Input) (n : Nat) (via : SaslState) (msg : Message (Response A))
    (s : Conn server.platform.cipher) :
    (sendVia server i n via msg s).1.boundIdentity = s.boundIdentity ∧
      (sendVia server i n via msg s).1.sasl = s.sasl ∧
      ∃ evs, (sendVia server i n via msg s).1.history = s.history ++ evs ∧
        Sends server via evs (sendVia server i n via msg s).2 := by
  unfold sendVia
  split
  · exact ⟨rfl, rfl, [], by simp [Conn.close], .nil _⟩
  · next f via' hsend => exact ⟨rfl, rfl, [.frame f], rfl, .cons hsend (.nil _)⟩

theorem send_sent (i : Input) (n : Nat) (msg : Message (Response A))
    (s : Conn server.platform.cipher) : Sent server s (send server i n msg s) := by
  obtain ⟨hid, _, evs, hhist, hsends⟩ := sendVia_sends i n s.sasl msg s
  exact ⟨hid, evs, hhist, hsends⟩

theorem sendAll_sent (i : Input) (messageId : UInt32) (n : Nat) (rs : List (Response A))
    (s : Conn server.platform.cipher) :
    Sent server s (sendAll server i messageId n rs s) := by
  induction rs generalizing n s with
  | nil => exact .refl s
  | cons r rs ih =>
    simp only [sendAll]
    split
    · exact (send_sent i n _ s).trans (ih (n + 1) _)
    · exact send_sent i n _ s

theorem startTlsStep_sent (i : Input) (messageId : UInt32) (s : Conn server.platform.cipher) :
    Sent server s (startTlsStep server i messageId s) := by
  have hsent := send_sent i 0 ⟨messageId, .extended
    ⟨(startTlsResult s.tls server.startTls).1, (startTlsResult s.tls server.startTls).2,
      some startTlsOid, none⟩⟩ s
  unfold startTlsStep
  simp only
  split
  · split
    · exact ⟨hsent.identity, hsent.history⟩
    · exact ⟨hsent.identity, hsent.history⟩
  · exact hsent

structure BindRound (i : Input) (s t : Conn server.platform.cipher) (req : BindRequest)
    (out : BindOutcome server.platform.cipher) : Prop where
  handled : BindCase server.toProvider i.env i.store req s.sasl out
  sasl : t.sasl = out.sasl
  identity : t.boundIdentity =
    if out.response.resultCode = .saslBindInProgress then s.boundIdentity else out.identity
  history : ∃ evs via, t.history = s.history ++ bindEvents server i req s.sasl out ++ evs ∧
    Sends server s.sasl evs via

def readBind (server : Server R A) (s : Conn server.platform.cipher) (i : Input) :
    Option BindRequest :=
  match readNextMessage server s.sasl s.buf i.chunks with
  | .ok (some (⟨_, .bind req⟩, _)) => some req
  | _ => none

theorem readBind_eq_some {s : Conn server.platform.cipher} {i : Input} {req : BindRequest} :
    readBind server s i = some req ↔ ∃ id rest,
      readNextMessage server s.sasl s.buf i.chunks = .ok (some (⟨id, .bind req⟩, rest)) := by
  unfold readBind
  constructor
  · intro h
    split at h
    · next hread =>
      cases h
      exact ⟨_, _, hread⟩
    · cases h
  · rintro ⟨id, rest, hread⟩
    rw [hread]

/-- Each round only sends, or answers one bind. -/
theorem advance_cases (i : Input) (s : Conn server.platform.cipher) :
    Sent server s (advance server i s) ∨
      ∃ req out, readBind server s i = some req ∧ BindRound i s (advance server i s) req out := by
  unfold advance
  split
  · exact .inl ⟨rfl, [], by simp [Conn.close], .nil _⟩
  · exact .inl ⟨rfl, [], by simp [Conn.close], .nil _⟩
  · next msg rest hread =>
    unfold dispatch
    split
    · exact .inl ⟨rfl, [], by simp [Conn.close], .nil _⟩
    · next req hreq =>
      obtain ⟨id, op⟩ := msg
      cases hreq
      unfold bindStep
      split
      · exact .inl ⟨rfl, [], by simp [Conn.close], .nil _⟩
      · next out hout =>
        refine .inr ⟨req, out, readBind_eq_some.mpr ⟨id, rest, hread⟩, handleBind_case hout, ?_, ?_,
          ?_⟩
        · exact (sendVia_sends i 0 s.sasl _ _).2.1
        · exact (sendVia_sends i 0 s.sasl _ _).1
        · obtain ⟨evs, hhist, hsends⟩ := (sendVia_sends i 0 s.sasl
            ⟨id, .bind out.response⟩ _).2.2
          exact ⟨evs, _, hhist, hsends⟩
    · exact .inl ⟨(startTlsStep_sent i _ _).identity, (startTlsStep_sent i _ _).history⟩
    · exact .inl ⟨(send_sent i 0 _ _).identity, (send_sent i 0 _ _).history⟩
    · exact .inl ⟨(send_sent i 0 _ _).identity, (send_sent i 0 _ _).history⟩
    · split
      · exact .inl ⟨rfl, [], by simp [Conn.close], .nil _⟩
      · exact .inl ⟨(sendAll_sent i _ 0 _ _).identity, (sendAll_sent i _ 0 _ _).history⟩
    · exact .inl ⟨rfl, [], by simp, .nil _⟩

end Round

end IronDirectory.Ldap
