import IronDirectory.Defs.Ldap.SecurityLayer

namespace IronDirectory.Ldap

open Base Crypto Kerberos Naming Storage Kdc

section History

variable {c : Cipher}

def Event.token? : Event c → Option (WrapToken c)
  | .challenge w | .frame (.wrapped w) => some w
  | _ => none

def track (cur : Option (Context × List (WrapToken c))) (ev : Event c) :
    Option (Context × List (WrapToken c)) :=
  match ev with
  | .accepted ctx => some (ctx, [])
  | ev => cur.map fun x => (x.1, x.2 ++ ev.token?.toList)

/-- The context accepted last, and the tokens sent since. -/
def current (history : List (Event c)) : Option (Context × List (WrapToken c)) :=
  history.foldl track none

/-- The tokens are of the context's key and count from 0, in 64-bit words. -/
structure Numbered (ctx : Context) (ws : List (WrapToken c)) : Prop where
  key : ∀ w ∈ ws, w.sessionKey = ctx.sessionKey ∧ w.enctype = ctx.enctype
  seq : ws.map WrapToken.seq = (List.range ws.length).map UInt64.ofNat

def AllNumbered (history : List (Event c)) : Prop :=
  ∀ pre, pre <+: history → ∀ ctx ws, current pre = some (ctx, ws) → Numbered ctx ws

theorem Numbered.nil (ctx : Context) : Numbered (c := c) ctx [] :=
  ⟨fun _ hw => absurd hw List.not_mem_nil, rfl⟩

theorem Numbered.snoc {ctx : Context} {ws : List (WrapToken c)} {w : WrapToken c}
    (h : Numbered ctx ws) (hkey : w.sessionKey = ctx.sessionKey) (he : w.enctype = ctx.enctype)
    (hseq : w.seq = UInt64.ofNat ws.length) : Numbered ctx (ws ++ [w]) := by
  refine ⟨forall_mem_snoc h.key ⟨hkey, he⟩, ?_⟩
  rw [List.map_append, h.seq, List.length_append, List.length_singleton, List.range_succ,
    List.map_append, List.map_singleton, List.map_singleton, hseq]

theorem Numbered.toNat_seq {ctx : Context} {ws : List (WrapToken c)} (h : Numbered ctx ws)
    (hlen : ws.length ≤ 2 ^ 64) : ws.map (fun w => w.seq.toNat) = List.range ws.length := by
  calc
    ws.map (fun w => w.seq.toNat) = (ws.map WrapToken.seq).map UInt64.toNat := by simp
    _ = (List.range ws.length).map (UInt64.toNat ∘ UInt64.ofNat) := by rw [h.seq, List.map_map]
    _ = (List.range ws.length).map id := by
      apply List.map_congr_left
      intro k hk
      exact UInt64.toNat_ofNat_of_lt' (lt_of_lt_of_le (List.mem_range.mp hk) hlen)
    _ = List.range ws.length := List.map_id _

theorem current_snoc (h : List (Event c)) (ev : Event c) :
    current (h ++ [ev]) = track (current h) ev := by
  simp [current]

namespace AllNumbered

variable {h : List (Event c)}

theorem numbered (hall : AllNumbered h) {ctx : Context} {ws : List (WrapToken c)}
    (hcur : current h = some (ctx, ws)) : Numbered ctx ws :=
  hall h (List.prefix_refl h) ctx ws hcur

theorem snoc (hall : AllNumbered h) {ev : Event c}
    (hev : ∀ ctx ws, track (current h) ev = some (ctx, ws) → Numbered ctx ws) :
    AllNumbered (h ++ [ev]) := by
  intro pre hpre ctx ws hcur
  cases List.prefix_concat_iff.mp hpre with
  | inl heq =>
    rw [heq, current_snoc] at hcur
    exact hev ctx ws hcur
  | inr hold => exact hall pre hold ctx ws hcur

theorem accept (hall : AllNumbered h) (ctx : Context) :
    AllNumbered (h ++ [.accepted ctx]) ∧ current (h ++ [.accepted ctx]) = some (ctx, []) := by
  refine ⟨hall.snoc fun ctx' ws hcur => ?_, current_snoc h _⟩
  cases hcur
  exact .nil ctx

theorem token (hall : AllNumbered h) (ev : Event c) {w : WrapToken c} {ctx : Context}
    {ws : List (WrapToken c)} (htoken : ev.token? = some w) (hcur : current h = some (ctx, ws))
    (hkey : w.sessionKey = ctx.sessionKey) (he : w.enctype = ctx.enctype)
    (hseq : w.seq = UInt64.ofNat ws.length) :
    AllNumbered (h ++ [ev]) ∧ current (h ++ [ev]) = some (ctx, ws ++ [w]) := by
  have htrack : track (current h) ev = some (ctx, ws ++ [w]) := by
    rw [hcur]
    cases ev with
    | accepted _ => cases htoken
    | bind _ => cases htoken
    | challenge _ =>
      cases htoken
      rfl
    | frame _ => simp [track, htoken]
  refine ⟨hall.snoc fun ctx' ws' hnext => ?_, by rw [current_snoc, htrack]⟩
  rw [htrack] at hnext
  cases hnext
  exact (hall.numbered hcur).snoc hkey he hseq

theorem silent (hall : AllNumbered h) (ev : Event c)
    (hev : (∃ e, ev = .bind e) ∨ ∃ b, ev = .frame (.bare b)) :
    AllNumbered (h ++ [ev]) ∧ current (h ++ [ev]) = current h := by
  have htrack : track (current h) ev = current h := by
    cases hev with
    | inl hbind =>
      obtain ⟨e, rfl⟩ := hbind
      cases current h <;> simp [track, Event.token?]
    | inr hbare =>
      obtain ⟨b, rfl⟩ := hbare
      cases current h <;> simp [track, Event.token?]
  refine ⟨hall.snoc fun ctx ws hnext => ?_, by rw [current_snoc, htrack]⟩
  rw [htrack] at hnext
  exact hall.numbered hnext

end AllNumbered

def Linked (sasl : SaslState) (cur : Option (Context × List (WrapToken c))) : Prop :=
  match sasl with
  | .none => True
  | .awaitingApRepAck ctx => cur = some (ctx, [])
  | .awaitingSecurityLayerAck ctx => ∃ w, cur = some (ctx, [w])
  | .securityLayerActive key e _ n =>
    ∃ ctx ws, cur = some (ctx, ws) ∧ ctx.sessionKey = key ∧ ctx.enctype = e ∧
      n = UInt64.ofNat ws.length

end History

section

variable {R A : Type} {server : Server R A}

theorem Sends.numbered_inactive {via via' : SaslState}
    {evs hist : List (Event server.platform.cipher)} (h : Sends server via evs via')
    (hvia : ¬ via.Active) (hall : AllNumbered hist) :
    via' = via ∧ AllNumbered (hist ++ evs) ∧ current (hist ++ evs) = current hist := by
  induction h generalizing hist with
  | nil =>
    rw [List.append_nil]
    exact ⟨rfl, hall, rfl⟩
  | cons hsend _ ih =>
    obtain ⟨hbare, rfl⟩ := sendResponse_inactive hvia hsend
    obtain ⟨b, rfl⟩ := hbare
    obtain ⟨hall', hcur⟩ := hall.silent (.frame (.bare b)) (.inr ⟨b, rfl⟩)
    rw [List.append_cons, ← hcur]
    exact ih hvia hall'

theorem Sends.numbered_active {via via' : SaslState}
    {evs hist : List (Event server.platform.cipher)} (h : Sends server via evs via')
    (hvia : via.Active) (hall : AllNumbered hist) (hlink : Linked via (current hist)) :
    AllNumbered (hist ++ evs) ∧ Linked via' (current (hist ++ evs)) := by
  induction h generalizing hist with
  | nil =>
    rw [List.append_nil]
    exact ⟨hall, hlink⟩
  | @cons via _ _ _ _ _ _ hsend _ ih =>
    cases via with
    | none => exact hvia.elim
    | awaitingApRepAck _ => exact hvia.elim
    | awaitingSecurityLayerAck _ => exact hvia.elim
    | securityLayerActive key e b n =>
      obtain ⟨w, rfl, hkey, he, _, hn, rfl⟩ := sendResponse_active hsend
      obtain ⟨ctx, ws, hcur, hctx, hctxe, hlen⟩ := hlink
      obtain ⟨hall', hcur'⟩ := hall.token (.frame (.wrapped w)) rfl hcur
        (hkey.trans hctx.symm) (he.trans hctxe.symm) (hn.trans hlen)
      rw [List.append_cons]
      refine ih trivial hall' ⟨ctx, ws ++ [w], hcur', hctx, hctxe, ?_⟩
      rw [hlen, List.length_append, List.length_singleton, UInt64.ofNat_add]
      rfl

def NoGssapiRebinds (server : Server R A) (s : Conn server.platform.cipher) (i : Input) : Prop :=
  ∀ req ∈ readBind server s i, s.sasl.Active → ¬ req.IsGssapi

instance (s : Conn server.platform.cipher) (i : Input) : Decidable (NoGssapiRebinds server s i) :=
  inferInstanceAs (Decidable (∀ req ∈ readBind server s i, s.sasl.Active → ¬ req.IsGssapi))

structure Counted {c : Cipher} (sasl : SaslState) (history : List (Event c)) : Prop where
  all : AllNumbered history
  linked : Linked sasl (current history)

theorem Counted.sent {s t : Conn server.platform.cipher} (h : Counted s.sasl s.history)
    (hsent : Sent server s t) : Counted t.sasl t.history := by
  obtain ⟨evs, hhist, hsends⟩ := hsent.history
  rw [hhist]
  by_cases hactive : s.sasl.Active
  · obtain ⟨hall, hlink⟩ := hsends.numbered_active hactive h.all h.linked
    exact ⟨hall, hlink⟩
  · obtain ⟨hsasl, hall, hcur⟩ := hsends.numbered_inactive hactive h.all
    refine ⟨hall, ?_⟩
    rw [hsasl, hcur]
    exact h.linked

theorem Counted.bindEvents {i : Input} {req : BindRequest} {sasl : SaslState}
    {hist : List (Event server.platform.cipher)} {out : BindOutcome server.platform.cipher}
    (h : Counted sasl hist) (hcase : BindCase server.toProvider i.env i.store req sasl out)
    (hinactive : ¬ sasl.Active) :
    Counted out.sasl (hist ++ Ldap.bindEvents server i req sasl out) := by
  obtain ⟨hall, hcur⟩ := h.all.silent (.bind ⟨req, i.store, i.env, sasl,
    out.response.resultCode, out.identity, out.accepted⟩) (.inl ⟨_, rfl⟩)
  have hlinked := h.linked
  rw [← hcur] at hlinked
  unfold Ldap.bindEvents
  rw [List.append_cons]
  generalize hist ++ [_] = hist' at hall hlinked ⊢
  cases hcase with
  | reset _ _ => exact ⟨(List.append_nil hist').symm ▸ hall, trivial⟩
  | simple _ _ => exact ⟨(List.append_nil hist').symm ▸ hall, trivial⟩
  | @accepted ctx _ _ _ =>
    obtain ⟨hall, hcur⟩ := hall.accept ctx
    exact ⟨hall, hcur⟩
  | @acceptedChallenged ctx w _ _ hkey he hseq =>
    obtain ⟨hall, hcur⟩ := hall.accept ctx
    obtain ⟨hall, hcur⟩ := hall.token (.challenge w) rfl hcur hkey he hseq
    rw [List.append_assoc] at hall hcur
    exact ⟨hall, w, hcur⟩
  | @acceptedFailed ctx _ _ => exact ⟨(hall.accept ctx).1, trivial⟩
  | @challenged ctx w _ hkey he hseq =>
    obtain ⟨hall, hcur⟩ := hall.token (.challenge w) rfl hlinked hkey he hseq
    exact ⟨hall, w, hcur⟩
  | @finished ctx sasl' _ _ hlayer =>
    obtain ⟨w, hone⟩ := hlinked
    rw [← List.append_nil hist'] at hall hone
    refine ⟨hall, ?_⟩
    cases hlayer with
    | inl hnone =>
      subst hnone
      trivial
    | inr hactive =>
      obtain ⟨b, rfl⟩ := hactive
      exact ⟨ctx, [w], hone, rfl, rfl, rfl⟩
  | rebind _ => exact absurd trivial hinactive

theorem BindCase.of_active {p : Provider} {env : Env} {store : Store} {req : BindRequest}
    {sasl : SaslState} {out : BindOutcome p.platform.cipher} (h : BindCase p env store req sasl out)
    (hactive : sasl.Active) (hgss : ¬ req.IsGssapi) :
    out.sasl = .none ∧ out.accepted = none ∧ out.challenge = none := by
  cases h with
  | reset _ _ => exact ⟨rfl, rfl, rfl⟩
  | simple _ _ => exact ⟨rfl, rfl, rfl⟩
  | accepted _ _ => exact hactive.elim
  | acceptedChallenged _ _ _ _ _ => exact hactive.elim
  | acceptedFailed _ => exact hactive.elim
  | challenged _ _ _ _ => exact hactive.elim
  | finished _ _ _ => exact hactive.elim
  | rebind h => exact absurd h hgss

theorem Counted.bindRound {i : Input} {s t : Conn server.platform.cipher} {req : BindRequest}
    {out : BindOutcome server.platform.cipher} (h : Counted s.sasl s.history)
    (hround : BindRound i s t req out) (hguard : s.sasl.Active → ¬ req.IsGssapi) :
    Counted t.sasl t.history := by
  obtain ⟨evs, via, hhist, hsends⟩ := hround.history
  rw [hhist, hround.sasl]
  by_cases hactive : s.sasl.Active
  · obtain ⟨hsasl, haccepted, hchallenge⟩ := hround.handled.of_active hactive (hguard hactive)
    obtain ⟨hall, hcur⟩ := h.all.silent (.bind ⟨req, i.store, i.env, s.sasl,
      out.response.resultCode, out.identity, out.accepted⟩) (.inl ⟨_, rfl⟩)
    have hall' := (hsends.numbered_active hactive hall (hcur.symm ▸ h.linked)).1
    rw [hsasl]
    refine ⟨?_, trivial⟩
    unfold Ldap.bindEvents
    rw [haccepted, hchallenge]
    rw [haccepted] at hall'
    exact hall'
  · obtain ⟨hall, hlinked⟩ := h.bindEvents hround.handled hactive
    obtain ⟨_, hall', hcur⟩ := hsends.numbered_inactive hactive hall
    exact ⟨hall', hcur.symm ▸ hlinked⟩

theorem Counted.step {s t : Conn server.platform.cipher} {i : Input}
    (h : Counted s.sasl s.history) (hguard : NoGssapiRebinds server s i)
    (hstep : Step server s i t) : Counted t.sasl t.history := by
  obtain ⟨_, rfl⟩ := hstep
  cases advance_cases i s with
  | inl hsent => exact h.sent hsent
  | inr hbind =>
    obtain ⟨req, _, hreq, hround⟩ := hbind
    exact h.bindRound hround (hguard req hreq)

theorem Counted.start (c : Cipher) : Counted (c := c) .none [] := by
  refine ⟨fun pre hpre _ _ hcur => ?_, trivial⟩
  rw [List.prefix_nil.mp hpre] at hcur
  cases hcur

/-- While no GSSAPI bind arrives through an active layer, the tokens sent on each
context are numbered one after another. -/
theorem send_seq_counts (server : Server R A)
    {steps : List (Conn server.platform.cipher × Input)} {t : Conn server.platform.cipher}
    (hrun : Run (Step server) (Conn.start server.platform.cipher) steps t)
    (hguard : ∀ x ∈ steps, NoGssapiRebinds server x.1 x.2) :
    ∀ s ∈ Run.states steps t, ∀ pre, pre <+: s.history → ∀ ctx ws, current pre = some (ctx, ws) →
      Numbered ctx ws ∧
        (ws.length ≤ 2 ^ 64 → ws.map (fun w => w.seq.toNat) = List.range ws.length) := by
  intro s hs pre hpre ctx ws hcur
  have hcounted := Run.invariant_of_guard
    (P := fun s : Conn server.platform.cipher => Counted s.sasl s.history)
    (fun _ _ _ h hG hstep => h.step hG hstep) hrun (.start _) hguard s hs
  have hnumbered := hcounted.all pre hpre ctx ws hcur
  exact ⟨hnumbered, hnumbered.toNat_seq⟩

end

def sampleQuestions : List Input :=
  [bareInput TgsExchange.sampleApp.store 0, bareInput TgsExchange.sampleApp.store 1,
    wrappedInput TgsExchange.sampleApp.store 4, wrappedInput TgsExchange.sampleApp.store 2]

theorem send_seq_counts_sample :
    ∃ steps t, Run (Step hostServer) (Conn.start _) steps t ∧
      (∀ x ∈ steps, NoGssapiRebinds hostServer x.1 x.2) ∧
      ∃ ctx ws, current t.history = some (ctx, ws) ∧ ws.length = 3 ∧
        ws.map (fun w => w.seq.toNat) = [0, 1, 2] := by
  obtain ⟨hopen, hguard, hlen⟩ :
      (∀ x ∈ rounds hostServer (Conn.start _) sampleQuestions, x.1.isOpen = true) ∧
      (∀ x ∈ rounds hostServer (Conn.start _) sampleQuestions,
        NoGssapiRebinds hostServer x.1 x.2) ∧
      (current (afterInputs hostServer (Conn.start _) sampleQuestions).history).map
        (fun x => x.2.length) = some 3 := by
    decide +kernel
  have hrun := run_rounds hostServer (Conn.start _) sampleQuestions hopen
  obtain ⟨⟨ctx, ws⟩, hcur, hws⟩ := Option.map_eq_some_iff.mp hlen
  have hseq := (send_seq_counts _ hrun hguard _ (Run.last_mem _ _) _ (List.prefix_refl _) ctx ws
    hcur).2 (by rw [hws]; decide)
  rw [hws] at hseq
  exact ⟨_, _, hrun, hguard, ctx, ws, hcur, hws, hseq⟩

/-- A GSSAPI bind through the layer is answered under a number that is then used
again. -/
theorem gssapi_rebind_repeats_seq :
    ∃ steps t, Run (Step hostServer) (Conn.start _) steps t ∧
      (current t.history).map (fun x => x.2.map WrapToken.seq) = some [0, 1, 1] := by
  have hrun := run_rounds hostServer (Conn.start _)
    [bareInput TgsExchange.sampleApp.store 0, bareInput TgsExchange.sampleApp.store 1,
      wrappedInput TgsExchange.sampleApp.store 3, wrappedInput TgsExchange.sampleApp.store 4]
    (by decide +kernel)
  exact ⟨_, _, hrun, by decide +kernel⟩

end IronDirectory.Ldap
