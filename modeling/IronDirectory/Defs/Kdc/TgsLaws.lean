import IronDirectory.Defs.Kdc.TgsExchange

namespace IronDirectory.Kdc

open Base Crypto Kerberos Naming Storage Outcome

/-- The first key of an enctype that the directory holds for a principal. -/
def AppState.HasKey (app : AppState) (principal : Str) (e : Enctype) (k : PrincipalKey) : Prop :=
  ∃ ks, app.principalKeys principal = some ks ∧ ks.find? (fun k => k.enctype == e) = some k

theorem AppState.HasKey.enctype_eq {app : AppState} {principal : Str} {e : Enctype}
    {k : PrincipalKey} (h : app.HasKey principal e k) : k.enctype = e := by
  obtain ⟨ks, _, hfind⟩ := h
  simpa using List.find?_some hfind

namespace TgsExchange

theorem issuerKey_eq_ok {P : Platform} {env : Env} {app : AppState} {realm : Str}
    {ticket : Ticket} {e : Enctype} {k : PrincipalKey} :
    issuerKey P env app realm ticket = .ok (e, k) ↔
      Enctype.ofNumber ticket.encPart.etype = some e ∧
        app.HasKey (issuerPrincipal ticket) e k := by
  simp only [issuerKey, bind_eq_ok, require_eq_ok, keysOrStop_eq_ok, pure_eq_ok, Prod.mk.injEq,
    AppState.HasKey, AppState.principalKeys_eq_some]
  constructor
  · rintro ⟨dn, hdn, entry, hentry, ks, hks, e', he, k', hk, rfl, rfl⟩
    exact ⟨he, ks, ⟨dn, entry, hdn, hentry, hks⟩, hk⟩
  · rintro ⟨he, ks, ⟨dn, entry, hdn, hentry, hks⟩, hk⟩
    exact ⟨dn, hdn, entry, hentry, ks, hks, e, he, k, hk, rfl, rfl⟩

structure Verified (P : Platform) (app : AppState) (t : Int) (p : Presented) : Prop where
  etype : Enctype.ofNumber p.apReq.ticket.encPart.etype = some p.enctype
  key : app.HasKey (issuerPrincipal p.apReq.ticket) p.enctype p.issuerKey
  ticket : ∃ b, P.cipher.decrypt p.enctype p.issuerKey.key 2 p.apReq.ticket.encPart.cipher = .ok b ∧
    P.der.encTicketPart.decode b = .ok p.tgt
  live : diffSeconds p.tgt.endTime (now t).1 ≤ 0
  authenticator : ∃ b, P.cipher.decrypt p.enctype p.tgt.key.value 7 p.apReq.authenticator.cipher =
    .ok b ∧ P.der.authenticator.decode b = .ok p.authenticator
  client : p.authenticator.crealm = p.tgt.crealm ∧ p.authenticator.cname = p.tgt.cname
  skew : (diffSeconds p.authenticator.ctime (now t).1).natAbs ≤ clockSkewSecs

theorem authenticate_eq_ok {P : Platform} {env : Env} {app : AppState} {req : KdcReq}
    {p : Presented} :
    authenticate P env app req = .ok p ↔
      apReq P env req = .ok p.apReq ∧ Verified P app (env.clock.reading 0) p := by
  simp only [authenticate, bind_eq_ok, mapError_eq_ok, ensure_eq_ok, pure_eq_ok, Prod.exists,
    issuerKey_eq_ok]
  constructor
  · rintro ⟨ap, hap, e, k, ⟨he, hk⟩, b, hb, tgt, htgt, _, hlive, c, hc, auth, hauth, _, hclient,
      _, hskew, rfl⟩
    exact ⟨hap, he, hk, ⟨b, hb, htgt⟩, hlive, ⟨c, hc, hauth⟩, hclient, hskew⟩
  · rintro ⟨hap, he, hk, ⟨b, hb, htgt⟩, hlive, ⟨c, hc, hauth⟩, hclient, hskew⟩
    exact ⟨p.apReq, hap, p.enctype, p.issuerKey, ⟨he, hk⟩, b, hb, p.tgt, htgt, ⟨⟩, hlive, c, hc,
      p.authenticator, hauth, ⟨⟩, hclient, ⟨⟩, hskew, rfl⟩

theorem Verified.opens {P : Platform} {app : AppState} {t : Int} {p : Presented}
    (h : Verified P app t p) : P.cipher.Opens p.enctype p.issuerKey.key 2 := by
  obtain ⟨b, hb, _⟩ := h.ticket
  exact ⟨_, b, hb⟩

theorem hasKey_unique {app : AppState} {principal : Str} {e : Enctype}
    {k k' : PrincipalKey} (h : app.HasKey principal e k) (h' : app.HasKey principal e k') :
    k = k' := by
  obtain ⟨ks, hks, hk⟩ := h
  obtain ⟨ks', hks', hk'⟩ := h'
  cases hks.symm.trans hks'
  exact Option.some.inj (hk.symm.trans hk')

theorem Verified.tgt_unique {P : Platform} {app : AppState} {t t' : Int} {p q : Presented}
    (hp : Verified P app t p) (hq : Verified P app t' q) (hap : p.apReq = q.apReq) :
    p.tgt = q.tgt := by
  have he : p.enctype = q.enctype :=
    Option.some.inj (hp.etype.symm.trans (by rw [hap]; exact hq.etype))
  have hk : p.issuerKey = q.issuerKey := by
    apply hasKey_unique hp.key
    rw [hap, he]
    exact hq.key
  obtain ⟨b, hb, hpt⟩ := hp.ticket
  obtain ⟨c, hc, hqt⟩ := hq.ticket
  rw [hap, he, hk, hc] at hb
  cases hb
  exact Except.ok.inj (hpt.symm.trans hqt)

def referralFor (app : AppState) (realm : Str) (e : Enctype) : Except Stop (Option PrincipalKey) :=
  if realm.asciiUpper ≠ app.realm.asciiUpper ∧ isOneHopNeighbor app realm.asciiUpper then
    referralKey app realm.asciiUpper e
  else .ok none

theorem referralFor_own {app : AppState} {realm : Str} (e : Enctype)
    (h : realm.asciiUpper = app.realm.asciiUpper) : referralFor app realm e = .ok none :=
  if_neg fun hother => hother.1 h

/-- A ticket of enctype `e` can be turned into some ticket: a referral, or a
ticket for a service the directory holds a usable key of. -/
def Servable (c : Cipher) (app : AppState) (e : Enctype) : Prop :=
  ∃ realm : Realm, ∃ referral, referralFor app (realmToString realm) e = .ok referral ∧
    ((∃ k ∈ referral, c.Opens k.enctype k.key 2) ∨
      ∃ sname f k, app.HasKey (keyPrincipal sname (realmToString realm)) f k ∧
        c.Opens f k.key 2)

theorem Grant.seal_eq_ok {P : Platform} (hP : P.Lawful) {g : Grant} {p : Presented}
    {nonce : UInt32} {draw : Nat → Nat} {issued : Issued}
    (h : g.seal P p nonce draw = .ok issued) :
    issued.part = g.part p.tgt ∧ issued.rep.crealm = p.tgt.crealm ∧
      issued.rep.cname = p.tgt.cname ∧ P.cipher.Opens g.key.enctype g.key.key 2 := by
  simp only [Grant.seal, bind_eq_ok, mapError_eq_ok, pure_eq_ok] at h
  obtain ⟨_, _, _, _, _, hticket, _, _, _, _, rfl⟩ := h
  exact ⟨rfl, rfl, rfl, hP.cipher.opens_of_encrypt hticket⟩

theorem find?_enctype {ks : List PrincipalKey} {q : Enctype → Bool} {k : PrincipalKey}
    (h : ks.find? (fun k => q k.enctype) = some k) :
    ks.find? (fun k' => k'.enctype == k.enctype) = some k := by
  obtain ⟨hq, as, bs, rfl, has⟩ := List.find?_eq_some_iff_append.mp h
  refine List.find?_eq_some_iff_append.mpr ⟨beq_self_eq_true _, as, bs, rfl, ?_⟩
  intro a ha
  have hne : a.enctype ≠ k.enctype := by
    intro heq
    have hqa := has a ha
    rw [heq, hq] at hqa
    cases hqa
  simpa using hne

theorem find?_enctype_of_head? {ks : List PrincipalKey} {k : PrincipalKey}
    (h : ks.head? = some k) : ks.find? (fun k' => k'.enctype == k.enctype) = some k := by
  cases ks with
  | nil => cases h
  | cons k' ks =>
    cases h
    simp

theorem find?_enctype_or_head? {ks : List PrincipalKey} {q : Enctype → Bool} {k : PrincipalKey}
    (h : (ks.find? fun k => q k.enctype).or ks.head? = some k) :
    ks.find? (fun k' => k'.enctype == k.enctype) = some k := by
  cases hfind : ks.find? fun k => q k.enctype with
  | none => exact find?_enctype_of_head? (by simpa [hfind] using h)
  | some k' =>
    rw [hfind, Option.some_or] at h
    cases h
    exact find?_enctype hfind

theorem selectKey_singleton {ks : List PrincipalKey} {e : Enctype} {k : PrincipalKey}
    (h : ks.find? (fun k => k.enctype == e) = some k) :
    selectKey ks [e.etypeNumber] = some k := by
  have hpred : (fun k : PrincipalKey => [e.etypeNumber].contains k.enctype.etypeNumber) =
      fun k => k.enctype == e := by
    funext k
    rw [Bool.eq_iff_iff]
    simp only [List.contains_cons, List.contains_nil, Bool.or_false, beq_iff_eq]
    exact ⟨Enctype.etypeNumber_injective, congrArg _⟩
  rw [selectKey, hpred, h, Option.some_or]

theorem referralTicket_eq_some {P : Platform} (hP : P.Lawful) {env : Env} {app : AppState}
    {req : KdcReq} {p : Presented} {target : Str} {key : PrincipalKey} {issued : Issued}
    (h : referralTicket P env app req p target key = some issued) :
    (∃ g : Grant, issued.part = g.part p.tgt) ∧ issued.rep.crealm = p.tgt.crealm ∧
      issued.rep.cname = p.tgt.cname ∧ P.cipher.Opens key.enctype key.key 2 := by
  simp only [referralTicket, Option.bind_eq_bind, Option.bind_eq_some_iff, toOption_eq_some] at h
  obtain ⟨sessionKey, _, hseal⟩ := h
  obtain ⟨hpart, hrealm, hname, hopens⟩ := Grant.seal_eq_ok hP hseal
  exact ⟨⟨_, hpart⟩, hrealm, hname, hopens⟩

theorem serviceTgsRep_eq_ok {P : Platform} (hP : P.Lawful) {env : Env} {app : AppState}
    {req : KdcReq} {p : Presented} {issued : Issued}
    (h : serviceTgsRep P env app req p = .ok issued) :
    (∃ g : Grant, issued.part = g.part p.tgt) ∧ issued.rep.crealm = p.tgt.crealm ∧
      issued.rep.cname = p.tgt.cname ∧
      ∃ sname f k, app.HasKey (keyPrincipal sname (realmToString req.reqBody.realm)) f k ∧
        P.cipher.Opens f k.key 2 := by
  simp only [serviceTgsRep, bind_eq_ok, require_eq_ok, keysOrStop_eq_ok, mapError_eq_ok] at h
  obtain ⟨sname, _, dn, hdn, entry, hentry, ks, hks, key, hkey, _, _, hseal⟩ := h
  obtain ⟨hpart, hrealm, hname, hopens⟩ := Grant.seal_eq_ok hP hseal
  have hks' := AppState.principalKeys_eq_some.mpr ⟨dn, entry, hdn, hentry, hks⟩
  have hfirst := find?_enctype_or_head? (q := fun e => req.reqBody.etype.contains e.etypeNumber) hkey
  exact ⟨⟨_, hpart⟩, hrealm, hname, sname, key.enctype, key, ⟨ks, hks', hfirst⟩, hopens⟩

theorem referral_eq_ok {P : Platform} {env : Env} {app : AppState} {req : KdcReq}
    {p : Presented} {r : Option Issued} :
    referral P env app req p = .ok r ↔
      ∃ key, referralFor app (realmToString req.reqBody.realm) p.enctype = .ok key ∧
        key.bind (referralTicket P env app req p (realmToString req.reqBody.realm).asciiUpper) =
          r := by
  unfold referral referralTgsRep referralFor
  by_cases hother : (realmToString req.reqBody.realm).asciiUpper ≠ app.realm.asciiUpper
  · by_cases hnear : isOneHopNeighbor app (realmToString req.reqBody.realm).asciiUpper = true
    · rw [if_pos hother, if_pos hnear, if_pos ⟨hother, hnear⟩]
      simp only [bind_eq_ok, pure_eq_ok]
    · rw [if_pos hother, if_neg hnear, if_neg fun h => hnear h.2]
      simp
  · rw [if_neg hother, if_neg fun h => hother h.1]
    simp

theorem exchange_eq_ok {P : Platform} (hP : P.Lawful) {env : Env} {app : AppState}
    {req : KdcReq} {issued : Issued} (h : exchange P env app req = .ok issued) :
    ∃ p, apReq P env req = .ok p.apReq ∧ Verified P app (env.clock.reading 0) p ∧
      (∃ g : Grant, issued.part = g.part p.tgt) ∧ issued.rep.crealm = p.tgt.crealm ∧
      issued.rep.cname = p.tgt.cname ∧ Servable P.cipher app p.enctype := by
  simp only [exchange, bind_eq_ok, authenticate_eq_ok, referral_eq_ok] at h
  obtain ⟨p, ⟨hap, hverified⟩, r, ⟨key, hfor, hticket⟩, hanswer⟩ := h
  cases r with
  | some r =>
    cases hanswer
    obtain ⟨k, hk, hr⟩ := Option.bind_eq_some_iff.mp hticket
    obtain ⟨hpart, hrealm, hname, hopens⟩ := referralTicket_eq_some hP hr
    exact ⟨p, hap, hverified, hpart, hrealm, hname, _, key, hfor, .inl ⟨k, hk, hopens⟩⟩
  | none =>
    obtain ⟨hpart, hrealm, hname, hservice⟩ := serviceTgsRep_eq_ok hP hanswer
    exact ⟨p, hap, hverified, hpart, hrealm, hname, _, key, hfor, .inr hservice⟩

theorem Grant.exists_seal {P : Platform} (hP : P.Lawful) {s : Nat}
    (hs : P.cipher.Works s) {g : Grant} {p : Presented} (nonce : UInt32)
    (hauth : TimeOk p.tgt.authTime)
    (hend : TimeOk g.endTime) (hkey : P.cipher.Opens g.key.enctype g.key.key 2)
    (hreply : P.cipher.Opens (replyKey p).2.1 (replyKey p).1 (replyKey p).2.2) :
    ∃ issued, g.seal P p nonce (fun _ => s) = .ok issued := by
  obtain ⟨part, hpart, _⟩ := hP.der.encTicketPart.exists_encode (g.part p.tgt)
    ⟨hauth, by simp [Grant.part], hend, by simp [Grant.part]⟩
  obtain ⟨rep, hrep, _⟩ := hP.der.encTgsRepPart.exists_encode (g.repPart p.tgt nonce)
    ⟨by simp [Grant.repPart], by simp [Grant.repPart], hauth, by simp [Grant.repPart], hend,
      by simp [Grant.repPart]⟩
  obtain ⟨c, hc⟩ := hs.encrypt part hkey
  obtain ⟨d, hd⟩ := hs.encrypt rep hreply
  simp only [Grant.seal, bind_eq_ok, mapError_eq_ok, pure_eq_ok]
  exact ⟨_, part, hpart, (), hs.newContext, c, hc, rep, hrep, d, hd, rfl⟩

theorem apReq_eq_ok {P : Platform} {env : Env} {req : KdcReq} {ap : ApReq} {b : Bytes}
    (hreq : req.padata = some [⟨paTgsReq, b⟩]) (hb : P.der.apReq.decode b = .ok ap) :
    apReq P env req = .ok ap := by
  simp [apReq, hreq, hb, Except.mapError]

section Answer

variable {P : Platform} {clock : Clock} {s : Nat} {p : Presented}

theorem exists_referralTicket (hP : P.Lawful) (hs : P.cipher.Works s) (app : AppState)
    (req : KdcReq) (target : Str) {k : PrincipalKey} (hauth : TimeOk p.tgt.authTime)
    (hend : TimeOk (endTime ⟨clock, fun _ => s⟩ 1 p.tgt)) (hk : P.cipher.Opens k.enctype k.key 2)
    (hreply : P.cipher.Opens (replyKey p).2.1 (replyKey p).1 (replyKey p).2.2) :
    ∃ issued, referralTicket P ⟨clock, fun _ => s⟩ app req p target k = some issued := by
  obtain ⟨sessionKey, hsession⟩ := hs.randomBytes k.enctype.keyLen
  obtain ⟨issued, hseal⟩ := Grant.exists_seal hP hs (g := ⟨k, sessionKey,
    stringToGstring app.realm, krbtgtPrincipalName target, _, none⟩) req.reqBody.nonce hauth
    hend hk hreply
  refine ⟨issued, ?_⟩
  simp only [referralTicket, Option.bind_eq_bind, Option.bind_eq_some_iff, toOption_eq_some]
  exact ⟨sessionKey, hsession, hseal⟩

theorem exists_serviceTgsRep (hP : P.Lawful) (hs : P.cipher.Works s) {app : AppState}
    (req : KdcReq) {sname : PrincipalName} {f : Enctype} {k : PrincipalKey}
    (hsname : req.reqBody.sname = some sname) (hetype : req.reqBody.etype = [f.etypeNumber])
    (hauth : TimeOk p.tgt.authTime) (hend : TimeOk (endTime ⟨clock, fun _ => s⟩ 3 p.tgt))
    (hkey : app.HasKey (keyPrincipal sname (realmToString req.reqBody.realm)) f k)
    (hk : P.cipher.Opens f k.key 2)
    (hreply : P.cipher.Opens (replyKey p).2.1 (replyKey p).1 (replyKey p).2.2) :
    ∃ issued, serviceTgsRep P ⟨clock, fun _ => s⟩ app req p = .ok issued := by
  obtain ⟨sessionKey, hsession⟩ := hs.randomBytes k.enctype.keyLen
  obtain ⟨issued, hseal⟩ := Grant.exists_seal hP hs (g := ⟨k, sessionKey, req.reqBody.realm,
    sname, _, authorizationData P app (realmToString req.reqBody.realm) p k⟩) req.reqBody.nonce
    hauth hend (by rwa [hkey.enctype_eq]) hreply
  obtain ⟨ks, hks, hfind⟩ := hkey
  obtain ⟨dn, entry, hdn, hentry, hkeys⟩ := AppState.principalKeys_eq_some.mp hks
  refine ⟨issued, ?_⟩
  simp only [serviceTgsRep, bind_eq_ok, require_eq_ok, keysOrStop_eq_ok, mapError_eq_ok]
  refine ⟨sname, hsname, dn, hdn, entry, hentry, ks, hkeys, k, ?_, sessionKey, hsession, hseal⟩
  rw [hetype]
  exact selectKey_singleton hfind

theorem exists_verified (hP : P.Lawful) (hs : P.cipher.Works s) {app : AppState} (clock : Clock)
    (ticket : Ticket) {tgt : EncTicketPart} {e : Enctype} {k : PrincipalKey} {b : Bytes}
    (hetype : Enctype.ofNumber ticket.encPart.etype = some e)
    (hkey : app.HasKey (issuerPrincipal ticket) e k)
    (hopen : P.cipher.decrypt e k.key 2 ticket.encPart.cipher = .ok b)
    (htgt : P.der.encTicketPart.decode b = .ok tgt)
    (hlive : diffSeconds tgt.endTime (now (clock.reading 0)).1 ≤ 0)
    (hsession : P.cipher.Opens e tgt.key.value 7) :
    ∃ apBytes p, P.der.apReq.decode apBytes = .ok p.apReq ∧
      Verified P app (clock.reading 0) p ∧ p.apReq.ticket = ticket ∧ p.enctype = e ∧
      p.tgt = tgt ∧ P.cipher.Opens (replyKey p).2.1 (replyKey p).1 (replyKey p).2.2 := by
  let auth : Authenticator := ⟨5, tgt.crealm, tgt.cname, none, 0, (now (clock.reading 0)).1,
    some ⟨17, List.replicate 16 0⟩, none, none⟩
  obtain ⟨authBytes, _, hauthDec⟩ := hP.der.authenticator.exists_encode auth (timeOk_now clock 0)
  obtain ⟨authCipher, hauthCipher⟩ := hs.encrypt authBytes hsession
  let ap : ApReq := ⟨5, 14, ⟨List.replicate 32 false⟩, ticket, ⟨e.etypeNumber, none, authCipher⟩⟩
  obtain ⟨apBytes, _, hap⟩ := hP.der.apReq.exists_encode ap trivial
  have hskew : (diffSeconds auth.ctime (now (clock.reading 0)).1).natAbs ≤ clockSkewSecs := by
    rw [diffSeconds_self]
    decide
  exact ⟨apBytes, ⟨ap, e, k, tgt, auth⟩, hap, ⟨hetype, hkey, ⟨b, hopen, htgt⟩, hlive,
    ⟨authBytes, hP.cipher.decrypt_encrypt hauthCipher, hauthDec⟩, ⟨rfl, rfl⟩, hskew⟩, rfl, rfl, rfl,
    hP.cipher.opens_of_length (e := .aes128CtsHmacSha1_96) 9 rfl⟩

theorem exists_exchange_at (hP : P.Lawful) {app : AppState} (clock : Clock) (ticket : Ticket)
    {tgt : EncTicketPart} {e : Enctype} {k : PrincipalKey} {b : Bytes}
    (hetype : Enctype.ofNumber ticket.encPart.etype = some e)
    (hkey : app.HasKey (issuerPrincipal ticket) e k)
    (hopen : P.cipher.decrypt e k.key 2 ticket.encPart.cipher = .ok b)
    (htgt : P.der.encTicketPart.decode b = .ok tgt)
    (hlive : diffSeconds tgt.endTime (now (clock.reading 0)).1 ≤ 0)
    (hend : ∀ s i, TimeOk (endTime ⟨clock, fun _ => s⟩ i tgt)) (hauth : TimeOk tgt.authTime)
    (hsession : P.cipher.Opens e tgt.key.value 7) (hserve : Servable P.cipher app e) :
    ∃ s req p issued, authenticate P ⟨clock, fun _ => s⟩ app req = .ok p ∧
      p.apReq.ticket = ticket ∧ p.tgt = tgt ∧
      exchange P ⟨clock, fun _ => s⟩ app req = .ok issued := by
  obtain ⟨s, hs⟩ := hP.cipher.exists_draw
  obtain ⟨realm, key, hfor, hserve⟩ := hserve
  let env : Env := ⟨clock, fun _ => s⟩
  obtain ⟨apBytes, p, hap, hverified, hticket, rfl, rfl, hreply⟩ :=
    exists_verified hP hs clock ticket hetype hkey hopen htgt hlive hsession
  have hpresents : ∀ sname etypes, authenticate P env app
      ⟨some [⟨paTgsReq, apBytes⟩], none, realm, sname, 0, etypes⟩ = .ok p :=
    fun _ _ => authenticate_eq_ok.mpr ⟨apReq_eq_ok rfl hap, hverified⟩
  obtain ⟨sname, etypes, issued, hissued⟩ : ∃ sname etypes, ∃ issued, exchange P env app
      ⟨some [⟨paTgsReq, apBytes⟩], none, realm, sname, 0, etypes⟩ = .ok issued := by
    simp only [exchange, bind_eq_ok, hpresents, referral_eq_ok]
    cases hserve with
    | inl hreferral =>
      obtain ⟨k', hk', hopens⟩ := hreferral
      obtain ⟨issued, hissued⟩ := exists_referralTicket (p := p) hP hs app
        ⟨some [⟨paTgsReq, apBytes⟩], none, realm, none, 0, []⟩ (realmToString realm).asciiUpper
        hauth (hend s 1) hopens hreply
      refine ⟨none, [], issued, p, rfl, some issued, ⟨key, hfor, ?_⟩, rfl⟩
      rw [Option.mem_def.mp hk']
      exact hissued
    | inr hservice =>
      obtain ⟨sname, f, k', hk', hopens⟩ := hservice
      obtain ⟨issued, hissued⟩ := exists_serviceTgsRep (p := p) hP hs
        ⟨some [⟨paTgsReq, apBytes⟩], none, realm, some sname, 0, [f.etypeNumber]⟩ rfl rfl hauth
        (hend s 3) hk' hopens hreply
      refine ⟨some sname, [f.etypeNumber], ?_⟩
      -- a neighbouring realm may be answered with a referral instead
      cases href : key.bind (referralTicket P env app
          ⟨some [⟨paTgsReq, apBytes⟩], none, realm, some sname, 0, [f.etypeNumber]⟩ p
          (realmToString realm).asciiUpper) with
      | some r => exact ⟨r, p, rfl, some r, ⟨key, hfor, href⟩, rfl⟩
      | none => exact ⟨issued, p, rfl, none, ⟨key, hfor, href⟩, hissued⟩
  exact ⟨s, _, p, issued, hpresents sname etypes, hticket, rfl, hissued⟩

end Answer

theorem timeOk_endTime {t : Int} (h₀ : 0 ≤ t) (h : t < 253370764800 * nanosPerSec)
    {tgt : EncTicketPart} (hlive : diffSeconds tgt.endTime (now t).1 ≤ 0) (s i : Nat) :
    TimeOk (endTime ⟨Clock.stopped t h₀ h, fun _ => s⟩ i tgt) := by
  apply timeOk_plusSeconds (Clock.stopped t h₀ h)
  · have hdiff : 0 ≤ diffSeconds (now t).1 tgt.endTime := by
      have hneg : diffSeconds (now t).1 tgt.endTime = -diffSeconds tgt.endTime (now t).1 := by
        rw [diffSeconds, diffSeconds, ← Int.neg_tdiv, Int.neg_sub]
      omega
    exact le_min (by decide) hdiff
  · exact min_le_left _ _

theorem exists_exchange {P : Platform} (hP : P.Lawful) {app : AppState} {t : Int} (h₀ : 0 ≤ t)
    (h : t < 253370764800 * nanosPerSec) (ticket : Ticket) {tgt : EncTicketPart} {e : Enctype}
    {k : PrincipalKey} {b : Bytes} (hetype : Enctype.ofNumber ticket.encPart.etype = some e)
    (hkey : app.HasKey (issuerPrincipal ticket) e k)
    (hopen : P.cipher.decrypt e k.key 2 ticket.encPart.cipher = .ok b)
    (htgt : P.der.encTicketPart.decode b = .ok tgt)
    (hlive : diffSeconds tgt.endTime (now t).1 ≤ 0) (hauth : TimeOk tgt.authTime)
    (hsession : P.cipher.Opens e tgt.key.value 7) (hserve : Servable P.cipher app e) :
    ∃ env req ap issued, env.clock.reading 0 = t ∧ apReq P env req = .ok ap ∧
      ap.ticket = ticket ∧ exchange P env app req = .ok issued ∧
      issued.part.crealm = tgt.crealm ∧ issued.part.cname = tgt.cname := by
  obtain ⟨s, req, p, issued, hp, hticket, htgt, hissued⟩ := exists_exchange_at hP
    (Clock.stopped t h₀ h) ticket hetype hkey hopen htgt hlive (timeOk_endTime h₀ h hlive) hauth
    hsession hserve
  obtain ⟨hap, hverified⟩ := authenticate_eq_ok.mp hp
  obtain ⟨q, hq, hqv, ⟨g, hg⟩, _, _, _⟩ := exchange_eq_ok hP hissued
  have hqtgt : q.tgt = tgt :=
    (Verified.tgt_unique hqv hverified (Except.ok.inj (hq.symm.trans hap))).trans htgt
  refine ⟨_, req, p.apReq, issued, rfl, hap, hticket, hissued, ?_, ?_⟩
  · rw [hg, ← hqtgt]
    rfl
  · rw [hg, ← hqtgt]
    rfl

end TgsExchange

end IronDirectory.Kdc
