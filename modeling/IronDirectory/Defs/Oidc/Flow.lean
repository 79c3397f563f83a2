import IronDirectory.Defs.Oidc.Server
import IronDirectory.Defs.Storage.IndexHistory

/-! Logins and token requests in any interleaving.  A code is in the store, in
the hands of one token request, or spent, and never in two of these places. -/

namespace IronDirectory.Oidc

open Base Kdc Naming Storage

structure Login (app : AppState) where
  store : Store
  form : LoginForm
  new : NewCode
  checked : checkLogin app store form = .ok new

structure Issue (app : AppState) where
  login : Login app
  code : Str
  expiresAt : Nat

def Issue.record {app : AppState} (i : Issue app) : IssuedCode :=
  { i.login.new with expiresAt := i.expiresAt }

structure Request (app : AppState) where
  req : TokenRequest
  presented : Presented
  checked : checkRequest app req = .ok presented

structure Taken (app : AppState) where
  request : Request app
  issued : IssuedCode

structure Accepted (app : AppState) where
  request : Request app
  issued : IssuedCode
  acceptedAt : Nat
  accepted : acceptCode request.presented (some issued) acceptedAt = .ok issued

structure Grant (app : AppState) where
  accepted : Accepted app
  store : Store
  iat : UInt64
  response : TokenResponse
  sent : issueTokens app store iat accepted.request.presented accepted.issued = .ok response

def Taken.code {app : AppState} (t : Taken app) : Str := t.request.presented.code

def Accepted.code {app : AppState} (a : Accepted app) : Str := a.request.presented.code

def Grant.code {app : AppState} (g : Grant app) : Str := g.accepted.code

/-- The server with its handlers under way; `issued` and `grants` record what
was handed out, in order. -/
structure Flow (app : AppState) where
  now : Nat
  codes : CodeStore
  logins : List (Login app)
  taken : List (Taken app)
  accepted : List (Accepted app)
  issued : List (Issue app)
  grants : List (Grant app)

namespace Flow

variable {app : AppState}

def start : Flow app := ⟨0, .empty, [], [], [], [], []⟩

inductive Event
  | tick
  | login
  | issue
  | request
  | accept
  | grant

/-- A handler that stops, because a check or a call fails, takes no further
step. -/
inductive Step : Flow app → Event → Flow app → Prop
  | tick {s : Flow app} (n : Nat) : Step s .tick { s with now := s.now + n }
  | login {s : Flow app} (l : Login app) : Step s .login { s with logins := l :: s.logins }
  -- The clock is read before the lock is taken.
  | issue {s : Flow app} {l : Login app} {pre post : List (Login app)} {read : Nat} (raw : Bytes) :
    s.logins = pre ++ l :: post → read ≤ s.now →
    Step s .issue { s with
      codes := (issueCode app s.codes (.ok raw) read l.form l.new).2
      logins := pre ++ post
      issued := ⟨l, Base64.encodeUrl raw, read + app.codeTtl⟩ :: s.issued }
  | request {s : Flow app} {r : Request app} {c : IssuedCode} {codes : CodeStore} :
    s.codes.remove r.presented.code = (some c, codes) →
    Step s .request { s with codes := codes, taken := ⟨r, c⟩ :: s.taken }
  | accept {s : Flow app} {t : Taken app} {pre post : List (Taken app)}
      (h : acceptCode t.request.presented (some t.issued) s.now = .ok t.issued) :
    s.taken = pre ++ t :: post →
    Step s .accept { s with
      taken := pre ++ post
      accepted := ⟨t.request, t.issued, s.now, h⟩ :: s.accepted }
  | grant {s : Flow app} {a : Accepted app} {pre post : List (Accepted app)} {store : Store}
      {iat : UInt64} {response : TokenResponse}
      (h : issueTokens app store iat a.request.presented a.issued = .ok response) :
    s.accepted = pre ++ a :: post →
    Step s .grant { s with
      accepted := pre ++ post
      grants := ⟨a, store, iat, response, h⟩ :: s.grants }

def spent (s : Flow app) : List Str :=
  s.taken.map Taken.code ++ (s.accepted.map Accepted.code ++ s.grants.map Grant.code)

def Backed (s : Flow app) (code : Str) (c : IssuedCode) : Prop :=
  ∃ i ∈ s.issued, i.code = code ∧ i.record = c

structure Sound (s : Flow app) : Prop where
  stored : ∀ code c, s.codes.find? code = some c → code ∉ s.spent ∧ s.Backed code c
  single : s.spent.Nodup
  taken : ∀ t ∈ s.taken, s.Backed t.code t.issued
  accepted : ∀ a ∈ s.accepted, s.Backed a.code a.issued
  grants : ∀ g ∈ s.grants, s.Backed g.code g.accepted.issued

theorem sound_start : (start : Flow app).Sound where
  stored := by
    intro code c h
    cases h
  single := List.nodup_nil
  taken := by simp [start]
  accepted := by simp [start]
  grants := by simp [start]

theorem Sound.mem_issued {s : Flow app} (h : s.Sound) {code : Str} (hc : code ∈ s.spent) :
    code ∈ s.issued.map Issue.code := by
  have hbacked : ∃ c, s.Backed code c := by
    simp only [spent, List.mem_append, List.mem_map] at hc
    obtain ⟨t, ht, rfl⟩ | ⟨a, ha, rfl⟩ | ⟨g, hg, rfl⟩ := hc
    · exact ⟨_, h.taken t ht⟩
    · exact ⟨_, h.accepted a ha⟩
    · exact ⟨_, h.grants g hg⟩
  obtain ⟨c, i, hi, rfl, -⟩ := hbacked
  exact List.mem_map_of_mem hi

theorem Sound.issue {s : Flow app} (h : s.Sound) {i : Issue app} (logins : List (Login app))
    (hfresh : i.code ∉ s.issued.map Issue.code) :
    Sound { s with
      codes := s.codes.insert i.code i.record, logins := logins, issued := i :: s.issued } := by
  have hback : ∀ {code c}, s.Backed code c → Backed { s with
      codes := s.codes.insert i.code i.record, logins := logins, issued := i :: s.issued }
      code c := by
    rintro code c ⟨j, hj, hcode, hrec⟩
    exact ⟨j, List.mem_cons_of_mem _ hj, hcode, hrec⟩
  refine ⟨?_, h.single, fun t ht => hback (h.taken t ht), fun a ha => hback (h.accepted a ha),
    fun g hg => hback (h.grants g hg)⟩
  intro code c hfind
  rw [OrderedMap.find?_insert] at hfind
  split at hfind
  next heq =>
    obtain rfl := Option.some.inj hfind
    subst heq
    exact ⟨fun hspent => hfresh (h.mem_issued hspent), i, List.mem_cons_self, rfl, rfl⟩
  next => exact ⟨(h.stored code c hfind).1, hback (h.stored code c hfind).2⟩

theorem Sound.request {s : Flow app} (h : s.Sound) {r : Request app} {c : IssuedCode}
    (hfind : s.codes.find? r.presented.code = some c) :
    Sound { s with codes := s.codes.erase r.presented.code, taken := ⟨r, c⟩ :: s.taken } := by
  obtain ⟨hnot, hbacked⟩ := h.stored _ c hfind
  refine ⟨?_, List.nodup_cons.mpr ⟨hnot, h.single⟩, ?_, h.accepted, h.grants⟩
  · intro code c' hfind'
    rw [OrderedMap.find?_erase] at hfind'
    split at hfind'
    next => cases hfind'
    next hne =>
      obtain ⟨hnot', hbacked'⟩ := h.stored code c' hfind'
      exact ⟨List.not_mem_cons_of_ne_of_not_mem hne hnot', hbacked'⟩
  · intro t ht
    cases List.mem_cons.mp ht with
    | inl heq =>
      subst heq
      exact hbacked
    | inr hold => exact h.taken t hold

theorem Sound.move {s : Flow app} (h : s.Sound) {taken : List (Taken app)}
    {accepted : List (Accepted app)} {grants : List (Grant app)}
    (hperm : (taken.map Taken.code ++ (accepted.map Accepted.code ++ grants.map Grant.code)).Perm
      s.spent)
    (htaken : ∀ t ∈ taken, s.Backed t.code t.issued)
    (haccepted : ∀ a ∈ accepted, s.Backed a.code a.issued)
    (hgrants : ∀ g ∈ grants, s.Backed g.code g.accepted.issued) :
    Sound { s with taken := taken, accepted := accepted, grants := grants } := by
  refine ⟨?_, hperm.nodup_iff.mpr h.single, htaken, haccepted, hgrants⟩
  intro code c hfind
  obtain ⟨hnot, hbacked⟩ := h.stored code c hfind
  exact ⟨fun hmem => hnot (hperm.mem_iff.mp hmem), hbacked⟩

theorem Sound.step {s t : Flow app} {e : Event} (h : s.Sound) (hstep : Step s e t)
    (hdistinct : (t.issued.map Issue.code).Nodup) : t.Sound := by
  cases hstep with
  | tick n => exact ⟨h.stored, h.single, h.taken, h.accepted, h.grants⟩
  | login l => exact ⟨h.stored, h.single, h.taken, h.accepted, h.grants⟩
  | issue raw hl hread => exact h.issue _ (List.nodup_cons.mp hdistinct).1
  | request hremove =>
    obtain ⟨hfind, rfl⟩ := Prod.mk.inj hremove
    exact h.request hfind
  | @accept a pre post hok ht =>
    refine h.move ?_ ?_ ?_ h.grants
    · have hcodes : ((pre ++ a :: post).map Taken.code).Perm
          (a.code :: (pre ++ post).map Taken.code) := List.perm_middle.map Taken.code
      rw [spent, ht]
      exact List.perm_middle.trans (hcodes.symm.append_right _)
    · intro x hx
      exact h.taken x (ht ▸ List.perm_middle.mem_iff.mpr (List.mem_cons_of_mem _ hx))
    · intro x hx
      cases List.mem_cons.mp hx with
      | inl heq =>
        subst heq
        exact h.taken a (ht ▸ List.mem_append_right _ List.mem_cons_self)
      | inr hold => exact h.accepted x hold
  | @grant a pre post store iat response hok ha =>
    refine h.move ?_ h.taken ?_ ?_
    · have hcodes : ((pre ++ a :: post).map Accepted.code).Perm
          (a.code :: (pre ++ post).map Accepted.code) := List.perm_middle.map Accepted.code
      rw [spent, ha]
      exact (List.perm_middle.trans (hcodes.symm.append_right _)).append_left _
    · intro x hx
      exact h.accepted x (ha ▸ List.perm_middle.mem_iff.mpr (List.mem_cons_of_mem _ hx))
    · intro x hx
      cases List.mem_cons.mp hx with
      | inl heq =>
        subst heq
        exact h.accepted a (ha ▸ List.mem_append_right _ List.mem_cons_self)
      | inr hold => exact h.grants x hold

theorem issued_suffix {s t : Flow app} {e : Event} (h : Step s e t) : s.issued <:+ t.issued := by
  cases h with
  | issue raw hl hread => exact List.suffix_cons _ _
  | tick n => exact List.suffix_rfl
  | login l => exact List.suffix_rfl
  | request hremove => exact List.suffix_rfl
  | accept hok ht => exact List.suffix_rfl
  | grant hok ha => exact List.suffix_rfl

theorem issued_suffix_run {s t : Flow app} {steps : List (Flow app × Event)}
    (h : Run Step s steps t) : s.issued <:+ t.issued := by
  induction h with
  | nil s => exact List.suffix_rfl
  | cons hst _ ih => exact (issued_suffix hst).trans ih

theorem Sound.run {s t : Flow app} {steps : List (Flow app × Event)} (h : s.Sound)
    (hrun : Run Step s steps t) (hdistinct : (t.issued.map Issue.code).Nodup) : t.Sound := by
  induction hrun with
  | nil s => exact h
  | cons hst hrest ih =>
    have hmid := ((issued_suffix_run hrest).map Issue.code).sublist.nodup hdistinct
    exact ih (h.step hst hmid) hdistinct

end Flow

theorem checkLogin_errors (app : AppState) (store : Store) (form : LoginForm) :
    Outcome.Errors (fun e => ∀ url, e ≠ .error (.redirect url)) (checkLogin app store form) := by
  refine Outcome.errors_bind (Outcome.errors_require (by simp)) fun _ => ?_
  refine Outcome.errors_bind (Outcome.errors_require (by simp [invalidLogin])) fun (dn, entry) => ?_
  refine Outcome.errors_bind (Outcome.errors_require (by simp [invalidLogin])) fun stored => ?_
  cases Ldap.verifyPassword app.fips.derive form.password.toUtf8 stored with
  | ok b =>
    cases b with
    | true => exact Outcome.errors_pure _
    | false => exact Outcome.errors_error (by simp [invalidLogin])
  | error e =>
    cases e with
    | panic => exact Outcome.errors_error (by simp)
    | error e => exact Outcome.errors_error (by simp [invalidLogin])

theorem Flow.run_submitLogin {app : AppState} {s : Flow app} {store : Store} {form : LoginForm}
    {raw : Bytes} {url : Str} {codes : CodeStore}
    (h : submitLogin app store s.codes (.ok raw) s.now form = some (.redirect url, codes)) :
    ∃ steps t, Run Step s steps t ∧ t.codes = codes ∧
      ∃ l : Login app, l.store = store ∧ l.form = form ∧
        t.issued = ⟨l, Base64.encodeUrl raw, s.now + app.codeTtl⟩ :: s.issued := by
  unfold submitLogin at h
  split at h
  next => cases h
  next response hcheck =>
    cases h
    exact absurd rfl (checkLogin_errors app store form _ hcheck url)
  next new hcheck =>
    have hlogin := Step.login (s := s) ⟨store, form, new, hcheck⟩
    have hissue := @Step.issue app { s with logins := ⟨store, form, new, hcheck⟩ :: s.logins }
      ⟨store, form, new, hcheck⟩ [] s.logins s.now raw rfl le_rfl
    cases h
    exact ⟨_, _, .cons hlogin (.cons hissue (.nil _)), rfl, _, rfl, rfl, rfl⟩

theorem checkRequest_eq_ok {app : AppState} {req : TokenRequest} {p : Presented}
    (h : checkRequest app req = .ok p) :
    (∃ secret, clientCredentials req = some (p.clientId, secret) ∧
      app.clients.authenticate p.clientId secret = true) ∧
      req.code = some p.code ∧ req.redirectUri = some p.redirectUri := by
  obtain ⟨⟨clientId, secret⟩, hcreds, h⟩ := Outcome.bind_eq_ok.mp h
  obtain ⟨_, hauth, h⟩ := Outcome.bind_eq_ok.mp h
  obtain ⟨_, -, h⟩ := Outcome.bind_eq_ok.mp h
  obtain ⟨code, hcode, h⟩ := Outcome.bind_eq_ok.mp h
  obtain ⟨redirectUri, hredirect, h⟩ := Outcome.bind_eq_ok.mp h
  cases h
  exact ⟨⟨secret, Outcome.require_eq_ok.mp hcreds, Outcome.ensure_eq_ok.mp hauth⟩,
    Outcome.require_eq_ok.mp hcode, Outcome.require_eq_ok.mp hredirect⟩

theorem acceptCode_eq_ok {p : Presented} {c c' : IssuedCode} {now : Nat}
    (h : acceptCode p (some c) now = .ok c') :
    c' = c ∧ now ≤ c.expiresAt ∧ c.clientId = p.clientId ∧ c.redirectUri = p.redirectUri := by
  obtain ⟨issued, hissued, h⟩ := Outcome.bind_eq_ok.mp h
  obtain ⟨_, hmatch, h⟩ := Outcome.bind_eq_ok.mp h
  cases h
  have hunexpired : c.unexpired now = some c' := Outcome.require_eq_ok.mp hissued
  rw [IssuedCode.unexpired] at hunexpired
  split at hunexpired
  · cases hunexpired
  · next hnow =>
    cases hunexpired
    obtain ⟨hclient, hredirect⟩ := Outcome.ensure_eq_ok.mp hmatch
    exact ⟨rfl, not_lt.mp hnow, hclient, hredirect⟩

theorem checkLogin_eq_ok {app : AppState} {store : Store} {form : LoginForm} {new : NewCode}
    (h : checkLogin app store form = .ok new) :
    new.clientId = form.clientId ∧ new.redirectUri = form.redirectUri ∧
      ∃ dn entry stored, new.subjectDn = dn.display ∧
        resolveUser store app.baseDn app.loginAttribute form.username = some (dn, entry) ∧
        (entry.get Ldap.userPasswordAttr).bind List.head? = some stored ∧
        Ldap.verifyPassword app.fips.derive form.password.toUtf8 stored = .ok true := by
  obtain ⟨_, -, h⟩ := Outcome.bind_eq_ok.mp h
  obtain ⟨⟨dn, entry⟩, huser, h⟩ := Outcome.bind_eq_ok.mp h
  obtain ⟨stored, hstored, h⟩ := Outcome.bind_eq_ok.mp h
  split at h
  next hverify =>
    cases h
    exact ⟨rfl, rfl, dn, entry, stored, rfl, Outcome.require_eq_ok.mp huser,
      Outcome.require_eq_ok.mp hstored, hverify⟩
  next => cases h
  next => cases h

theorem getEntry_of_resolveUser {store : Store} {baseDn dn : Dn} {attr username : Str}
    {entry : Entry} (h : resolveUser store baseDn attr username = some (dn, entry)) :
    store.getEntry dn = .ok (some entry) := by
  unfold resolveUser at h
  split at h
  · obtain ⟨e, he, heq⟩ := Option.map_eq_some_iff.mp h
    cases heq
    exact present_eq_some.mp he
  · cases h

theorem issueTokens_eq_ok {app : AppState} {store : Store} {iat : UInt64} {p : Presented}
    {issued : IssuedCode} {response : TokenResponse}
    (h : issueTokens app store iat p issued = .ok response) :
    ∃ entry, sign app.fips keyId (app.fips.idJson (idClaims app iat p.clientId issued entry)) =
        .ok response.idToken ∧
      sign app.fips keyId (app.fips.accessJson (accessClaims app iat issued)) =
        .ok response.accessToken := by
  obtain ⟨entry, -, h⟩ := Outcome.bind_eq_ok.mp h
  obtain ⟨idToken, hid, h⟩ := Outcome.bind_eq_ok.mp h
  obtain ⟨accessToken, haccess, h⟩ := Outcome.bind_eq_ok.mp h
  cases h
  exact ⟨entry, Outcome.mapError_eq_ok.mp hid, Outcome.mapError_eq_ok.mp haccess⟩

theorem Flow.run_token {app : AppState} {s : Flow app} {store : Store} {iat : UInt64}
    {req : TokenRequest} {response : TokenResponse} {codes : CodeStore}
    (h : token app store s.codes s.now iat req = (.ok response, codes)) :
    ∃ steps t, Run Step s steps t ∧ t.codes = codes ∧
      ∃ g : Grant app, g.accepted.request.req = req ∧ g.accepted.acceptedAt = s.now ∧
        g.response = response ∧ t.grants = g :: s.grants := by
  unfold token at h
  split at h
  next => cases h
  next p hcheck =>
    obtain ⟨hresult, rfl⟩ := Prod.mk.inj h
    obtain ⟨issued, haccept, hsent⟩ := Outcome.bind_eq_ok.mp hresult
    have htaken : acceptCode p (s.codes.find? p.code) s.now = .ok issued := haccept
    obtain ⟨c, hfind, hissued⟩ : ∃ c, s.codes.find? p.code = some c ∧
        acceptCode p (some c) s.now = .ok issued := by
      cases hfind : s.codes.find? p.code with
      | none =>
        rw [hfind] at htaken
        cases htaken
      | some c =>
        rw [hfind] at htaken
        exact ⟨c, rfl, htaken⟩
    obtain ⟨rfl, -⟩ := acceptCode_eq_ok hissued
    have hrequest := @Step.request app s ⟨req, p, hcheck⟩ issued (s.codes.erase p.code)
      (congrArg (·, s.codes.erase p.code) hfind)
    have haccepted := @Step.accept app
      { s with codes := s.codes.erase p.code, taken := ⟨⟨req, p, hcheck⟩, issued⟩ :: s.taken }
      ⟨⟨req, p, hcheck⟩, issued⟩ [] s.taken hissued rfl
    have hgrant := @Step.grant app
      { s with
        codes := s.codes.erase p.code
        accepted := ⟨⟨req, p, hcheck⟩, issued, s.now, hissued⟩ :: s.accepted }
      ⟨⟨req, p, hcheck⟩, issued, s.now, hissued⟩ [] s.accepted store iat response hsent rfl
    exact ⟨_, _, .cons hrequest (.cons haccepted (.cons hgrant (.nil _))), rfl, _, rfl, rfl, rfl,
      rfl⟩

def Login.Verifies {app : AppState} (l : Login app) (dn : Dn) : Prop :=
  ∃ entry stored, l.store.getEntry dn = .ok (some entry) ∧
    (entry.get Ldap.userPasswordAttr).bind List.head? = some stored ∧
    Ldap.verifyPassword app.fips.derive l.form.password.toUtf8 stored = .ok true

/-- The tokens were sent for this code, as they may be. -/
structure Grant.Rightful {app : AppState} (g : Grant app) (i : Issue app) : Prop where
  code : g.accepted.request.req.code = some i.code
  client : ∃ secret, clientCredentials g.accepted.request.req =
      some (i.login.form.clientId, secret) ∧
    app.clients.authenticate i.login.form.clientId secret = true
  redirectUri : g.accepted.request.req.redirectUri = some i.login.form.redirectUri
  inTime : g.accepted.acceptedAt ≤ i.expiresAt
  subject : ∃ dn id access, i.login.Verifies dn ∧
    sign app.fips keyId (app.fips.idJson id) = .ok g.response.idToken ∧
    sign app.fips keyId (app.fips.accessJson access) = .ok g.response.accessToken ∧
    id.sub = dn.display ∧ access.sub = dn.display

theorem Grant.rightful {app : AppState} {g : Grant app} {i : Issue app} (hcode : i.code = g.code)
    (hrecord : i.record = g.accepted.issued) : g.Rightful i := by
  obtain ⟨⟨secret, hcreds, hauth⟩, hreqCode, hreqRedirect⟩ :=
    checkRequest_eq_ok g.accepted.request.checked
  obtain ⟨-, htime, hclient, hredirect⟩ := acceptCode_eq_ok g.accepted.accepted
  obtain ⟨hformClient, hformRedirect, dn, entry, stored, hdn, huser, hstored, hverify⟩ :=
    checkLogin_eq_ok i.login.checked
  obtain ⟨subject, hid, haccess⟩ := issueTokens_eq_ok g.sent
  rw [← hrecord] at htime hclient hredirect hid haccess
  have hclient' : i.login.form.clientId = g.accepted.request.presented.clientId :=
    hformClient.symm.trans hclient
  have hredirect' : i.login.form.redirectUri = g.accepted.request.presented.redirectUri :=
    hformRedirect.symm.trans hredirect
  refine ⟨?_, ⟨secret, ?_, ?_⟩, ?_, htime, dn, _, _, ?_, hid, haccess, hdn, hdn⟩
  · rw [hreqCode, hcode]
    rfl
  · rw [hclient', hcreds]
  · rw [hclient', hauth]
  · rw [hreqRedirect, hredirect']
  · exact ⟨entry, stored, getEntry_of_resolveUser huser, hstored, hverify⟩

/-- However logins and token requests interleave, as long as the codes drawn
are distinct: tokens are sent once for a code, and only as they may be. -/
theorem grants_rightful {app : AppState} {flow : Flow app} {steps : List (Flow app × Flow.Event)}
    (hrun : Run Flow.Step Flow.start steps flow)
    (hdistinct : (flow.issued.map Issue.code).Nodup) :
    (flow.grants.map Grant.code).Nodup ∧
      ∀ g ∈ flow.grants, ∃ i ∈ flow.issued, g.Rightful i := by
  have hsound := Flow.sound_start.run hrun hdistinct
  constructor
  · exact (List.nodup_append.mp (List.nodup_append.mp hsound.single).2.1).2.1
  · intro g hg
    obtain ⟨i, hi, hcode, hrecord⟩ := hsound.grants g hg
    exact ⟨i, hi, Grant.rightful hcode hrecord⟩

section Samples

def quoted (s : Str) : Str := "\"" ++ s ++ "\""

def object (fields : List (Str × Str)) : Bytes :=
  Str.toUtf8 ("\x7b" ++ Str.join ',' (fields.map fun f => quoted f.1 ++ ':' :: f.2) ++ "\x7d")

def optional (name : Str) (value : Option Str) : List (Str × Str) :=
  value.toList.map fun v => (name, quoted v)

/-- JSON as it is written for texts without a quote, and, in place of the
derivation and the signature, the first octets of what they are made from. -/
def plainProvider : Provider where
  derive password salt iterations :=
    .ok ((password ++ salt ++ Str.toUtf8 (Str.ofNat iterations) ++ List.replicate 32 0).take 32)
  headerJson alg typ kid := object [("alg", quoted alg), ("typ", quoted typ), ("kid", quoted kid)]
  idJson c := object ([(Str.ofString "iss", quoted c.iss), ("sub", quoted c.sub),
    ("aud", quoted c.aud), ("exp", Str.ofNat c.exp.toNat), ("iat", Str.ofNat c.iat.toNat)] ++
    optional "nonce" c.nonce ++ optional "email" c.email ++ optional "name" c.name ++
    optional "preferred_username" c.preferredUsername)
  accessJson c := object [("iss", quoted c.iss), ("sub", quoted c.sub),
    ("exp", Str.ofNat c.exp.toNat), ("iat", Str.ofNat c.iat.toNat), ("scope", quoted c.scope)]
  signEs256 input := .ok ((input.reverse ++ List.replicate 64 0).take 64)

def corpApp : AppState where
  issuer := "https://oidc.corp"
  baseDn := Tracked.corp.baseDn
  loginAttribute := "uid"
  fips := plainProvider
  clients := ⟨OrderedMap.empty.insert "web" ⟨"web", "s3cret", "https://web.corp/cb"⟩⟩
  codeTtl := 60
  tokenTtl := 3600

def hashed (password : Str) (salt : Bytes) : Str :=
  "$pbkdf2-sha256$210000$" ++ Bytes.toHex salt ++ '$' :: Bytes.toHex
    ((plainProvider.derive password.toUtf8 salt 210000).toOption.getD [])

def user (uid password : Str) (salt : UInt8) : Entry :=
  (Entry.new.set "uid" [uid]).set "userpassword" [hashed password (List.replicate 16 salt)]

def withUser (store : Store) (cn : Str) (entry : Entry) : Store :=
  ((store.putEntry (Tracked.corpPerson cn) entry (.new ["uid"])).toOption).getD store

def corpUsers : Store :=
  withUser (withUser Tracked.corpEmpty.store "Alice" (user "alice" "correct horse" 7)) "Bob"
    (user "bob" "battery staple" 9)

def webForm (username password : Str) : LoginForm :=
  ⟨username, password, "web", "https://web.corp/cb", "openid", none, none⟩

def aliceLogin : Login corpApp where
  store := corpUsers
  form := webForm "alice" "correct horse"
  new := ⟨"web", "https://web.corp/cb", "cn=Alice,dc=corp", none, "openid"⟩
  checked := by rfl

def bobLogin : Login corpApp where
  store := corpUsers
  form := webForm "bob" "battery staple"
  new := ⟨"web", "https://web.corp/cb", "cn=Bob,dc=corp", none, "openid"⟩
  checked := by rfl

def drawn (first : Nat) : Bytes := (List.range 32).map fun i => UInt8.ofNat (first + i)

def aliceCode : Str := "AAECAwQFBgcICQoLDA0ODxAREhMUFRYXGBkaGxwdHh8"

def bobCode : Str := "ICEiIyQlJicoKSorLC0uLzAxMjM0NTY3ODk6Ozw9Pj8"

def webRequest (code : Str) : Request corpApp where
  req := ⟨none, "authorization_code", some code, some "https://web.corp/cb", some "web",
    some "s3cret"⟩
  presented := ⟨"web", code, "https://web.corp/cb"⟩
  checked := by rfl

theorem encodeUrl_drawn :
    Base64.encodeUrl (drawn 0) = aliceCode ∧ Base64.encodeUrl (drawn 32) = bobCode := by
  decide +kernel

def bothIssued : CodeStore :=
  (OrderedMap.empty.insert (Base64.encodeUrl (drawn 0))
    { aliceLogin.new with expiresAt := 60 }).insert (Base64.encodeUrl (drawn 32))
      { bobLogin.new with expiresAt := 60 }

theorem remove_bobCode : bothIssued.remove bobCode =
    (some { bobLogin.new with expiresAt := 60 }, bothIssued.erase bobCode) := by
  rw [CodeStore.remove, bothIssued, OrderedMap.find?_insert, if_pos encodeUrl_drawn.2.symm]

theorem remove_aliceCode : CodeStore.remove (bothIssued.erase bobCode) aliceCode =
    (some { aliceLogin.new with expiresAt := 60 },
      (bothIssued.erase bobCode).erase aliceCode) := by
  rw [CodeStore.remove, OrderedMap.find?_erase, if_neg (by decide), bothIssued, encodeUrl_drawn.1,
    encodeUrl_drawn.2, OrderedMap.find?_insert, if_neg (by decide), OrderedMap.find?_insert,
    if_pos rfl]

theorem grants_rightful_alice : ∃ (flow : Flow corpApp) (steps : List (Flow corpApp × Flow.Event)),
    Run Flow.Step Flow.start steps flow ∧ flow.grants.map Grant.code = [aliceCode, bobCode] ∧
      ∀ g ∈ flow.grants, ∃ i ∈ flow.issued, g.Rightful i := by
  have hrun := Run.cons (@Flow.Step.login corpApp Flow.start aliceLogin)
    (.cons (@Flow.Step.login corpApp _ bobLogin)
    (.cons (@Flow.Step.issue corpApp _ aliceLogin [bobLogin] [] 0 (drawn 0) rfl le_rfl)
    (.cons (@Flow.Step.issue corpApp _ bobLogin [] [] 0 (drawn 32) rfl le_rfl)
    (.cons (@Flow.Step.request corpApp _ (webRequest bobCode) _ _ remove_bobCode)
    (.cons (@Flow.Step.tick corpApp _ 30)
    (.cons (@Flow.Step.request corpApp _ (webRequest aliceCode) _ _ remove_aliceCode)
    (.cons (@Flow.Step.accept corpApp _ _ [_] [] rfl rfl)
    (.cons (@Flow.Step.accept corpApp _ _ [] [] rfl rfl)
    (.cons (@Flow.Step.grant corpApp _ _ [_] [] corpUsers 1700000000 _ rfl rfl)
    (.cons (@Flow.Step.grant corpApp _ _ [] [] corpUsers 1700000030 _ rfl rfl)
      (.nil _)))))))))))
  have hdistinct : [Base64.encodeUrl (drawn 32), Base64.encodeUrl (drawn 0)].Nodup := by
    rw [encodeUrl_drawn.1, encodeUrl_drawn.2]
    decide
  exact ⟨_, _, hrun, rfl, (grants_rightful hrun hdistinct).2⟩

end Samples

end IronDirectory.Oidc
