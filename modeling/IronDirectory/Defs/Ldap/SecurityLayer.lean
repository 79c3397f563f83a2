import IronDirectory.Defs.Ldap.Identity

namespace IronDirectory.Ldap

open Base Crypto Kerberos Naming Storage Kdc

section

variable {R A : Type} {server : Server R A}

def TokenOf {c : Cipher} (key : Bytes) (e : Enctype) (b : Bool) (f : Frame c) : Prop :=
  ∃ w, f = .wrapped w ∧ w.sessionKey = key ∧ w.enctype = e ∧ w.isSealed = b

theorem Sends.active {via via' : SaslState} {evs : List (Event server.platform.cipher)}
    (h : Sends server via evs via') {key : Bytes} {e : Enctype} {b : Bool} {n : UInt64}
    (hvia : via = .securityLayerActive key e b n) :
    (∃ m, via' = .securityLayerActive key e b m) ∧ ∀ f, .frame f ∈ evs → TokenOf key e b f := by
  induction h generalizing n with
  | nil => exact ⟨⟨n, hvia⟩, fun _ hf => absurd hf List.not_mem_nil⟩
  | cons hsend _ ih =>
    subst hvia
    obtain ⟨w, rfl, hkey, he, hb, _, hnext⟩ := sendResponse_active hsend
    obtain ⟨hlast, hrest⟩ := ih hnext
    refine ⟨hlast, fun f hf => ?_⟩
    cases List.mem_cons.mp hf with
    | inl heq =>
      cases heq
      exact ⟨w, rfl, hkey, he, hb⟩
    | inr hmem => exact hrest f hmem

theorem readNextMessage_active {key : Bytes} {e : Enctype} {b : Bool} {n : UInt64} {buf : Bytes}
    {chunks : List (Option Bytes)} {msg : Message (Request R)} {rest : Bytes}
    (h : readNextMessage server (.securityLayerActive key e b n) buf chunks =
      .ok (some (msg, rest))) :
    server.fips = true ∧ ∃ token plain,
      readFramed splitSized buf chunks = .ok (some (token, rest)) ∧
      Gssapi.unwrap server.platform.cipher e key 24 token = .ok plain ∧
      server.decode plain = .ok msg := by
  simp only [readNextMessage] at h
  split at h
  · cases h
  · next hfips =>
    split at h
    · cases h
    · cases h
    · next token rest' hframe =>
      split at h
      · cases h
      · next plain hplain =>
        split at h
        · cases h
        · next hmsg =>
          cases h
          exact ⟨by simpa using hfips, token, plain, hframe, hplain, hmsg⟩

/-- The round reads only a verified token of the layer and sends only tokens of
it. -/
structure Protected (server : Server R A) (key : Bytes) (e : Enctype) (b : Bool)
    (s : Conn server.platform.cipher) (i : Input) : Prop where
  read : ∀ msg rest, readNextMessage server s.sasl s.buf i.chunks = .ok (some (msg, rest)) →
    ∃ token plain, readFramed splitSized s.buf i.chunks = .ok (some (token, rest)) ∧
      Gssapi.unwrap server.platform.cipher e key 24 token = .ok plain ∧
      server.decode plain = .ok msg
  sent : ∃ evs, (advance server i s).history = s.history ++ evs ∧
    ∀ f, .frame f ∈ evs → TokenOf key e b f

theorem Protected.sized {key : Bytes} {e : Enctype} {b : Bool} {s : Conn server.platform.cipher}
    {i : Input} (h : Protected server key e b s i)
    (hread : (readNextMessage server s.sasl s.buf i.chunks).toOption.join.isSome = true) :
    (readFramed splitSized s.buf i.chunks).toOption.join.isSome = true := by
  obtain ⟨⟨msg, rest⟩, hmsg⟩ := Option.isSome_iff_exists.mp hread
  rw [Option.join_eq_some_iff, Outcome.toOption_eq_some] at hmsg
  obtain ⟨token, _, hframe, _⟩ := h.read msg rest hmsg
  rw [hframe]
  rfl

/-- A bind that arrives through an active layer is a GSSAPI bind. -/
def OnlyGssapiRebinds (server : Server R A) (s : Conn server.platform.cipher) (i : Input) : Prop :=
  ∀ req ∈ readBind server s i, s.sasl.Active → req.IsGssapi

instance (s : Conn server.platform.cipher) (i : Input) :
    Decidable (OnlyGssapiRebinds server s i) :=
  inferInstanceAs (Decidable (∀ req ∈ readBind server s i, s.sasl.Active → req.IsGssapi))

theorem frame_not_mem_bindEvents (i : Input) (req : BindRequest) (before : SaslState)
    (out : BindOutcome server.platform.cipher) (f : Frame server.platform.cipher) :
    .frame f ∉ bindEvents server i req before out := by
  cases out with
  | mk response identity sasl accepted challenge =>
    cases accepted <;> cases challenge <;> simp [bindEvents]

theorem BindRound.layer_eq {i : Input} {s t : Conn server.platform.cipher} {req : BindRequest}
    {out : BindOutcome server.platform.cipher} (h : BindRound i s t req out) {key : Bytes}
    {e : Enctype} {b : Bool} {n : UInt64} (hs : s.sasl = .securityLayerActive key e b n)
    (hfips : server.fips = true) (hgss : req.IsGssapi) :
    t.sasl = .securityLayerActive key e b n := by
  have hcase := h.handled
  rw [hs] at hcase
  rw [h.sasl]
  cases hcase with
  | reset _ hnot => exact absurd hgss (hnot trivial hfips)
  | simple _ hnot => exact absurd hgss hnot
  | rebind _ => rfl

theorem protected_step {key : Bytes} {e : Enctype} {b : Bool} {n : UInt64}
    {s t : Conn server.platform.cipher} {i : Input}
    (hs : s.sasl = .securityLayerActive key e b n) (hguard : OnlyGssapiRebinds server s i)
    (hstep : Step server s i t) :
    Protected server key e b s i ∧ ∃ m, t.sasl = .securityLayerActive key e b m := by
  obtain ⟨_, rfl⟩ := hstep
  have hread : ∀ msg rest, readNextMessage server s.sasl s.buf i.chunks = .ok (some (msg, rest)) →
      _ := fun msg rest h => readNextMessage_active (hs ▸ h)
  cases advance_cases i s with
  | inl hsent =>
    obtain ⟨evs, hhist, hsends⟩ := hsent.history
    obtain ⟨hlast, hframes⟩ := hsends.active hs
    exact ⟨⟨fun msg rest h => (hread msg rest h).2, evs, hhist, hframes⟩, hlast⟩
  | inr hbind =>
    obtain ⟨req, out, hreq, hround⟩ := hbind
    obtain ⟨id, rest, hmsg⟩ := readBind_eq_some.mp hreq
    have hgss := hguard req hreq (hs ▸ trivial)
    obtain ⟨evs, via, hhist, hsends⟩ := hround.history
    obtain ⟨_, hframes⟩ := hsends.active hs
    refine ⟨⟨fun msg rest h => (hread msg rest h).2, bindEvents server i req s.sasl out ++ evs,
      by rw [hhist, List.append_assoc], fun f hf => ?_⟩,
      n, hround.layer_eq hs (hread _ _ hmsg).1 hgss⟩
    cases List.mem_append.mp hf with
    | inl hmem => exact absurd hmem (frame_not_mem_bindEvents i req s.sasl out f)
    | inr hmem => exact hframes f hmem

/-- From an active layer on, every round of a run whose re-binds are all GSSAPI
binds stays inside it. -/
theorem layer_kept (server : Server R A) {s t : Conn server.platform.cipher}
    {steps : List (Conn server.platform.cipher × Input)} {key : Bytes} {e : Enctype} {b : Bool}
    {n : UInt64} (hrun : Run (Step server) s steps t)
    (hactive : s.sasl = .securityLayerActive key e b n)
    (hguard : ∀ x ∈ steps, OnlyGssapiRebinds server x.1 x.2) :
    ∀ x ∈ steps, Protected server key e b x.1 x.2 := by
  induction hrun generalizing n with
  | nil => exact fun _ hx => absurd hx List.not_mem_nil
  | cons hstep _ ih =>
    rw [List.forall_mem_cons] at hguard ⊢
    obtain ⟨hprot, m, hnext⟩ := protected_step hactive hguard.1 hstep
    exact ⟨hprot, ih hnext hguard.2⟩

end

def sampleActive : Conn hostServer.platform.cipher :=
  sampleBinds hostServer TgsExchange.sampleApp.store

theorem sampleActive_sasl : sampleActive.sasl =
    .securityLayerActive (List.replicate 16 0) .aes128CtsHmacSha1_96 false 1 := by
  decide +kernel

theorem layer_kept_sample :
    ∃ steps t, Run (Step hostServer) sampleActive steps t ∧ steps.length = 2 ∧
      (∀ x ∈ steps, OnlyGssapiRebinds hostServer x.1 x.2) ∧
      ∀ x ∈ steps, Protected hostServer (List.replicate 16 0) .aes128CtsHmacSha1_96 false
        x.1 x.2 := by
  obtain ⟨hopen, hguard⟩ : (∀ x ∈ rounds hostServer sampleActive
      [wrappedInput TgsExchange.sampleApp.store 3, wrappedInput TgsExchange.sampleApp.store 4],
        x.1.isOpen = true) ∧
      ∀ x ∈ rounds hostServer sampleActive
        [wrappedInput TgsExchange.sampleApp.store 3, wrappedInput TgsExchange.sampleApp.store 4],
        OnlyGssapiRebinds hostServer x.1 x.2 := by
    decide +kernel
  have hrun := run_rounds hostServer sampleActive _ hopen
  exact ⟨_, _, hrun, rfl, hguard, layer_kept _ hrun sampleActive_sasl hguard⟩

/-- An anonymous bind through the layer, and the next message is read bare. -/
theorem anonymous_bind_drops_layer :
    ∃ past steps t, Run (Step hostServer) (Conn.start _) past sampleActive ∧
      Run (Step hostServer) sampleActive steps t ∧
      sampleActive.sasl =
        .securityLayerActive (List.replicate 16 0) .aes128CtsHmacSha1_96 false 1 ∧
      ¬ ∀ x ∈ steps, Protected hostServer (List.replicate 16 0) .aes128CtsHmacSha1_96 false
        x.1 x.2 := by
  have hpast := run_rounds hostServer (Conn.start _)
    [bareInput TgsExchange.sampleApp.store 0, bareInput TgsExchange.sampleApp.store 1]
    (by decide +kernel)
  have hrun := run_rounds hostServer sampleActive
    [wrappedInput TgsExchange.sampleApp.store 2, bareInput TgsExchange.sampleApp.store 4]
    (by decide +kernel)
  refine ⟨_, _, _, hpast, hrun, sampleActive_sasl, fun hall => ?_⟩
  have hlast := hall _ (List.mem_cons_of_mem _ List.mem_cons_self)
  exact absurd (hlast.sized (by decide +kernel)) (by decide +kernel)

end IronDirectory.Ldap
