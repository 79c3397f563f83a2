import IronDirectory.Defs.Kdc.Issuer
import IronDirectory.Defs.Ldap.ConnectionLaws

namespace IronDirectory.Ldap

open Base Crypto Kerberos Naming Storage Kdc

def Event.bind? {c : Cipher} : Event c → Option BindEvent
  | .bind e => some e
  | _ => none

def binds {c : Cipher} (history : List (Event c)) : List BindEvent := history.filterMap Event.bind?

def BindEvent.InProgress (e : BindEvent) : Prop := e.code = .saslBindInProgress

def SaslState.pending : SaslState → Option Context
  | .awaitingApRepAck ctx | .awaitingSecurityLayerAck ctx => some ctx
  | _ => Option.none

/-- `a` started an exchange for `ctx` that every later bind has carried on. -/
structure Exchange (p : Provider) (ctx : Context) (a : BindEvent) (bs : List BindEvent) :
    Prop where
  accepts : Accepts p a.env a.store a.request ctx
  split : ∃ pre mid, bs = pre ++ a :: mid ∧ ∀ x ∈ mid, x.request.IsGssapi ∧ x.InProgress

def LastSimple (p : Provider) (name : Str) (bs : List BindEvent) : Prop :=
  ∃ pre e post, bs = pre ++ e :: post ∧ e.request.name = name ∧ e.code = .success ∧
    PasswordVerified p e.store e.request ∧ ∀ x ∈ post, x.InProgress

def LastGssapi (p : Provider) (client : Str) (a : BindEvent) (bs : List BindEvent) : Prop :=
  ∃ ctx pre f post, bs = pre ++ f :: post ∧ Exchange p ctx a pre ∧ ctx.clientPrincipal = client ∧
    f.request.IsGssapi ∧ f.code = .success ∧ Unwraps p f.request ctx ∧ ∀ x ∈ post, x.InProgress

theorem forall_mem_snoc {α : Type} {q : α → Prop} {xs : List α} {x : α} (h : ∀ y ∈ xs, q y)
    (hx : q x) : ∀ y ∈ xs ++ [x], q y := by
  intro y hy
  cases List.mem_append.mp hy with
  | inl hmem => exact h y hmem
  | inr hmem => exact List.mem_singleton.mp hmem ▸ hx

section

variable {p : Provider} {bs : List BindEvent} {e : BindEvent}

theorem LastSimple.snoc {name : Str} (h : LastSimple p name bs) (he : e.InProgress) :
    LastSimple p name (bs ++ [e]) := by
  obtain ⟨pre, f, post, rfl, hname, hcode, hverified, hpost⟩ := h
  exact ⟨pre, f, post ++ [e], by simp, hname, hcode, hverified, forall_mem_snoc hpost he⟩

theorem LastGssapi.snoc {client : Str} {a : BindEvent} (h : LastGssapi p client a bs)
    (he : e.InProgress) : LastGssapi p client a (bs ++ [e]) := by
  obtain ⟨ctx, pre, f, post, rfl, hex, hclient, hgss, hcode, hunwraps, hpost⟩ := h
  exact ⟨ctx, pre, f, post ++ [e], by simp, hex, hclient, hgss, hcode, hunwraps,
    forall_mem_snoc hpost he⟩

theorem Exchange.start {ctx : Context} (h : Accepts p e.env e.store e.request ctx) :
    Exchange p ctx e (bs ++ [e]) :=
  ⟨h, bs, [], rfl, fun _ hx => absurd hx List.not_mem_nil⟩

theorem Exchange.snoc {ctx : Context} {a : BindEvent} (h : Exchange p ctx a bs)
    (hgss : e.request.IsGssapi) (he : e.InProgress) : Exchange p ctx a (bs ++ [e]) := by
  obtain ⟨pre, mid, rfl, hmid⟩ := h.split
  exact ⟨h.accepts, pre, mid ++ [e], by simp, forall_mem_snoc hmid ⟨hgss, he⟩⟩

end

/-- What the binds so far say about the identity and the pending exchange. -/
structure Identified {c : Cipher} (p : Provider) (s : Conn c) : Prop where
  identity : ∀ id ∈ s.boundIdentity,
    (∃ name, id = "dn:" ++ name ∧ LastSimple p name (binds s.history)) ∨
      ∃ client a, id = "u:" ++ client ∧ LastGssapi p client a (binds s.history)
  pending : ∀ ctx ∈ s.sasl.pending, ∃ a, Exchange p ctx a (binds s.history)

section

variable {R A : Type} {server : Server R A}

theorem Sends.binds_eq {via via' : SaslState} {evs : List (Event server.platform.cipher)}
    (h : Sends server via evs via') : binds evs = [] := by
  induction h with
  | nil => rfl
  | cons _ _ ih => exact ih

theorem Sends.pending_eq {via via' : SaslState} {evs : List (Event server.platform.cipher)}
    (h : Sends server via evs via') : via'.pending = via.pending := by
  induction h with
  | nil => rfl
  | @cons via _ _ _ _ _ _ hsend _ ih =>
    rw [ih]
    cases via with
    | securityLayerActive _ _ _ _ =>
      obtain ⟨_, _, _, _, _, _, rfl⟩ := sendResponse_active hsend
      rfl
    | none => exact congrArg _ (sendResponse_inactive id hsend).2
    | awaitingApRepAck _ => exact congrArg _ (sendResponse_inactive id hsend).2
    | awaitingSecurityLayerAck _ => exact congrArg _ (sendResponse_inactive id hsend).2

theorem binds_append {c : Cipher} (h h' : List (Event c)) : binds (h ++ h') = binds h ++ binds h' :=
  List.filterMap_append

theorem binds_bindEvents (i : Input) (req : BindRequest) (before : SaslState)
    (out : BindOutcome server.platform.cipher) :
    binds (bindEvents server i req before out) =
      [⟨req, i.store, i.env, before, out.response.resultCode, out.identity, out.accepted⟩] := by
  cases out with
  | mk response identity sasl accepted challenge =>
    cases accepted <;> cases challenge <;> rfl

theorem Sent.binds_eq {s t : Conn server.platform.cipher} (h : Sent server s t) :
    binds t.history = binds s.history := by
  obtain ⟨evs, hhist, hsends⟩ := h.history
  rw [hhist, binds_append, hsends.binds_eq, List.append_nil]

theorem BindRound.binds_eq {i : Input} {s t : Conn server.platform.cipher} {req : BindRequest}
    {out : BindOutcome server.platform.cipher} (h : BindRound i s t req out) :
    binds t.history = binds s.history ++
      [⟨req, i.store, i.env, s.sasl, out.response.resultCode, out.identity, out.accepted⟩] := by
  obtain ⟨evs, via, hhist, hsends⟩ := h.history
  rw [hhist, binds_append, binds_append, hsends.binds_eq, binds_bindEvents, List.append_nil]

theorem Identified.sent {s t : Conn server.platform.cipher}
    (h : Identified server.toProvider s) (hsent : Sent server s t) :
    Identified server.toProvider t := by
  obtain ⟨evs, _, hsends⟩ := hsent.history
  refine ⟨?_, ?_⟩
  · rw [hsent.identity, hsent.binds_eq]
    exact h.identity
  · rw [hsends.pending_eq, hsent.binds_eq]
    exact h.pending

theorem Identified.of_unbound {c : Cipher} {p : Provider} {t : Conn c}
    (hid : t.boundIdentity = none) (hpending : t.sasl.pending = none) : Identified p t := by
  refine ⟨fun _ hmem => ?_, fun _ hmem => ?_⟩
  · rw [hid] at hmem
    cases hmem
  · rw [hpending] at hmem
    cases hmem

theorem Identified.inProgress {c : Cipher} {p : Provider} {s t : Conn c} {e a : BindEvent}
    {ctx : Context} (h : Identified p s) (hbs : binds t.history = binds s.history ++ [e])
    (he : e.InProgress) (hid : t.boundIdentity = s.boundIdentity)
    (hpending : t.sasl.pending = some ctx) (hex : Exchange p ctx a (binds s.history ++ [e])) :
    Identified p t := by
  refine ⟨fun id hmem => ?_, fun ctx' hmem => ?_⟩
  · rw [hid] at hmem
    rw [hbs]
    cases h.identity id hmem with
    | inl hsimple =>
      obtain ⟨name, hname, hlast⟩ := hsimple
      exact .inl ⟨name, hname, hlast.snoc he⟩
    | inr hgss =>
      obtain ⟨client, a, hclient, hlast⟩ := hgss
      exact .inr ⟨client, a, hclient, hlast.snoc he⟩
  · rw [hpending] at hmem
    cases hmem
    rw [hbs]
    exact ⟨a, hex⟩

theorem Identified.bindRound {i : Input} {s t : Conn server.platform.cipher} {req : BindRequest}
    {out : BindOutcome server.platform.cipher} (h : Identified server.toProvider s)
    (hround : BindRound i s t req out) : Identified server.toProvider t := by
  have hbs := hround.binds_eq
  have hid := hround.identity
  have hsasl := congrArg SaslState.pending hround.sasl
  have hpending := h.pending
  have hcase := hround.handled
  generalize s.sasl = sasl at hcase hbs hpending
  cases hcase with
  | reset hcode _ => exact .of_unbound (hid.trans (if_neg hcode)) hsasl
  | simple hverified _ =>
    refine ⟨fun id hmem => ?_, fun _ hmem => ?_⟩
    · rw [hid] at hmem
      cases hmem
      exact .inl ⟨req.name, rfl, binds s.history, _, [], hbs, rfl, rfl, hverified,
        fun _ hx => absurd hx List.not_mem_nil⟩
    · rw [hsasl] at hmem
      cases hmem
  | accepted _ haccepts => exact h.inProgress hbs rfl hid hsasl (.start haccepts)
  | acceptedChallenged _ haccepts _ _ _ => exact h.inProgress hbs rfl hid hsasl (.start haccepts)
  | acceptedFailed _ => exact .of_unbound hid hsasl
  | challenged hgss _ _ _ =>
    obtain ⟨a, hex⟩ := hpending _ rfl
    exact h.inProgress hbs rfl hid hsasl (hex.snoc hgss rfl)
  | finished hgss hunwraps hlayer =>
    obtain ⟨a, hex⟩ := hpending _ rfl
    refine ⟨fun id hmem => ?_, fun _ hmem => ?_⟩
    · rw [hid] at hmem
      cases hmem
      exact .inr ⟨_, a, rfl, _, binds s.history, _, [], hbs, hex, rfl, hgss, rfl, hunwraps,
        fun _ hx => absurd hx List.not_mem_nil⟩
    · rw [hsasl] at hmem
      cases hlayer with
      | inl hnone =>
        subst hnone
        cases hmem
      | inr hactive =>
        obtain ⟨b, rfl⟩ := hactive
        cases hmem
  | rebind _ => exact .of_unbound hid hsasl

theorem Identified.step {s t : Conn server.platform.cipher} {i : Input}
    (h : Identified server.toProvider s) (hstep : Step server s i t) :
    Identified server.toProvider t := by
  obtain ⟨_, rfl⟩ := hstep
  cases advance_cases i s with
  | inl hsent => exact h.sent hsent
  | inr hbind =>
    obtain ⟨_, _, _, hround⟩ := hbind
    exact h.bindRound hround

theorem Identified.start (p : Provider) (c : Cipher) : Identified p (Conn.start c) :=
  .of_unbound rfl rfl

theorem append_ne_of_head {a b : Char} {x y : Str} (h : a ≠ b) : a :: x ≠ b :: y := by
  intro heq
  exact h (List.cons.inj heq).1

/-- In every state of every connection the identity is the one the last terminal
bind earned. -/
theorem identity_sound (server : Server R A) {steps : List (Conn server.platform.cipher × Input)}
    {t : Conn server.platform.cipher}
    (hrun : Run (Step server) (Conn.start server.platform.cipher) steps t) :
    ∀ s ∈ Run.states steps t,
      (∀ name : Str, s.boundIdentity = some ("dn:" ++ name) →
        LastSimple server.toProvider name (binds s.history)) ∧
      (∀ client : Str, s.boundIdentity = some ("u:" ++ client) →
        ∃ a, LastGssapi server.toProvider client a (binds s.history)) ∧
      ((∀ name : Str, s.boundIdentity ≠ some ("dn:" ++ name)) →
        (∀ client : Str, s.boundIdentity ≠ some ("u:" ++ client)) → s.boundIdentity = none) := by
  intro s hs
  have hinv := Run.invariant (fun _ _ _ h hstep => Identified.step h hstep) hrun
    (.start server.toProvider _) s hs
  refine ⟨fun name hid => ?_, fun client hid => ?_, fun hdn hu => ?_⟩
  · cases hinv.identity _ hid with
    | inl h =>
      obtain ⟨name', heq, hlast⟩ := h
      rw [List.append_cancel_left heq]
      exact hlast
    | inr h =>
      obtain ⟨client, a, heq, _⟩ := h
      exact absurd heq (append_ne_of_head (by decide))
  · cases hinv.identity _ hid with
    | inl h =>
      obtain ⟨name, heq, _⟩ := h
      exact absurd heq (append_ne_of_head (by decide))
    | inr h =>
      obtain ⟨client', a, heq, hlast⟩ := h
      rw [List.append_cancel_left heq]
      exact ⟨a, hlast⟩
  · cases hbound : s.boundIdentity with
    | none => rfl
    | some id =>
      cases hinv.identity id hbound with
      | inl h =>
        obtain ⟨name, rfl, _⟩ := h
        exact absurd hbound (hdn name)
      | inr h =>
        obtain ⟨client, _, rfl, _⟩ := h
        exact absurd hbound (hu client)

end

def onlyCodec {α : Type} (x : α) : Codec α :=
  ⟨fun _ => .ok [1], fun b => if b = [1] then .ok x else .error "unknown"⟩

def samplePart : EncTicketPart :=
  ⟨reservedFlags, ⟨17, List.replicate 16 0⟩, stringToGstring "IRON.LO",
    stringToPrincipalName "administrator", ⟨0, []⟩, 0, none, 0, none, none, none⟩

def sampleAuthenticator : Authenticator :=
  ⟨5, stringToGstring "IRON.LO", stringToPrincipalName "administrator",
    some ⟨Gssapi.gssChecksumType, List.replicate 24 0⟩, 0, 0, none, none, none⟩

def sampleApReq (service : Str) (key : Bytes) : ApReq :=
  ⟨5, 14, ⟨List.replicate 32 false⟩,
    ⟨5, stringToGstring "IRON.LO", stringToPrincipalName service,
      ⟨17, none, Cipher.idealHeader .aes128CtsHmacSha1_96 key 2 ++ [1]⟩⟩,
    ⟨17, none, Cipher.idealHeader .aes128CtsHmacSha1_96 (List.replicate 16 0) 11 ++ [1]⟩⟩

def samplePlatform (service : Str) (key : Bytes) : Platform :=
  ⟨.ideal, { Codecs.unary with
    apReq := onlyCodec (sampleApReq service key)
    encTicketPart := onlyCodec samplePart
    authenticator := onlyCodec sampleAuthenticator }, id⟩

def clientToken (plain : Bytes) : Bytes :=
  Gssapi.wrapHeader false 12 0 ++ plain ++ List.replicate 12 0

def sampleRequests : List (Request Unit) :=
  [.bind ⟨3, [], .sasl "GSSAPI" (some (Gssapi.buildInitialContextToken (Gssapi.tokIdApReq ++ [1])))⟩,
    .bind ⟨3, [], .sasl "GSSAPI" (some (clientToken [0x02, 0, 0, 0]))⟩,
    .bind ⟨3, [], .simple []⟩, .bind ⟨3, [], .sasl "GSSAPI" none⟩, .whoAmI]

def sampleServer (service : Str) (key : Bytes) : Server Unit Unit where
  platform := samplePlatform service key
  derive _ _ _ := .error .ossl
  fips := true
  decode b :=
    match b with
    | [0x30, 1, k] => Outcome.require (sampleRequests[k.toNat]?.map (Message.mk 1)) "unknown"
    | _ => .error "unknown"
  encode _ := .ok [0x30, 0]
  directory _ _ _ := some []
  startTls := false

def hostServer : Server Unit Unit := sampleServer "host/fs" (TgsExchange.sampleKey 2).key

def bareInput (store : Store) (k : UInt8) : Input :=
  ⟨store, ⟨Clock.epoch, id⟩, [some [0x30, 1, k]], fun _ => true, true⟩

def wrappedInput (store : Store) (k : UInt8) : Input :=
  ⟨store, ⟨Clock.epoch, id⟩,
    [some (Bytes.be 4 31 ++ clientToken [0x30, 1, k])], fun _ => true, true⟩

section

variable {R A : Type} (server : Server R A)

def afterInputs (s : Conn server.platform.cipher) (inputs : List Input) :
    Conn server.platform.cipher :=
  inputs.foldl (fun s i => advance server i s) s

def rounds (s : Conn server.platform.cipher) :
    List Input → List (Conn server.platform.cipher × Input)
  | [] => []
  | i :: is => (s, i) :: rounds (advance server i s) is

theorem run_rounds (s : Conn server.platform.cipher) (inputs : List Input)
    (hopen : ∀ x ∈ rounds server s inputs, x.1.isOpen = true) :
    Run (Step server) s (rounds server s inputs) (afterInputs server s inputs) := by
  induction inputs generalizing s with
  | nil => exact .nil s
  | cons i is ih =>
    rw [rounds, List.forall_mem_cons] at hopen
    exact .cons ⟨hopen.1, rfl⟩ (ih (advance server i s) hopen.2)

end

def sampleBinds (server : Server Unit Unit) (store : Store) : Conn server.platform.cipher :=
  afterInputs server (Conn.start _) [bareInput store 0, bareInput store 1]

theorem identity_sound_sample :
    ∃ steps, Run (Step hostServer) (Conn.start _) steps
        (sampleBinds hostServer TgsExchange.sampleApp.store) ∧
      ∃ a, LastGssapi hostServer.toProvider "administrator@IRON.LO" a
        (binds (sampleBinds hostServer TgsExchange.sampleApp.store).history) := by
  obtain ⟨hopen, hid⟩ : (∀ x ∈ rounds hostServer (Conn.start _)
      [bareInput TgsExchange.sampleApp.store 0, bareInput TgsExchange.sampleApp.store 1],
        x.1.isOpen = true) ∧
      (sampleBinds hostServer TgsExchange.sampleApp.store).boundIdentity =
        some ("u:" ++ "administrator@IRON.LO") := by
    decide +kernel
  have hrun := run_rounds hostServer (Conn.start _) _ hopen
  exact ⟨_, hrun, (identity_sound _ hrun _ (Run.last_mem _ _)).2.1 _ hid⟩

end IronDirectory.Ldap
