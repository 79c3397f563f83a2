import IronDirectory.Defs.Kdc.AsExchange
import IronDirectory.Defs.Kdc.KpasswdLaws

namespace IronDirectory.Kdc.TicketKinds

open Base Crypto Kerberos Naming Storage Outcome

def ForChangepw (req : KdcReq) : Prop := ∃ s ∈ req.reqBody.sname, isChangepw s = true

structure Sealed (P : Platform) (issued : Issued) : Prop where
  wf : issued.part.Wf
  cipher : ∃ draw b, P.der.encTicketPart.encode issued.part = .ok b ∧
    P.cipher.encrypt draw issued.key.enctype issued.key.key 2 b =
      .ok issued.rep.ticket.encPart.cipher
  etype : issued.rep.ticket.encPart.etype = issued.key.enctype.etypeNumber

theorem sealed_of_issue {P : Platform} {env : Env} {app : AppState} {req : KdcReq}
    {issued : Issued} (h : AsExchange.issue P env app req = .ok issued) : Sealed P issued := by
  simp only [AsExchange.issue, bind_eq_ok, mapError_eq_ok, pure_eq_ok] at h
  obtain ⟨client, _, key, _, sessionKey, _, b, hb, _, _, c, hc, _, _, _, _, rfl⟩ := h
  refine ⟨⟨timeOk_now env.clock 1, by simp [AsExchange.ticketPart], ?_,
    by simp [AsExchange.ticketPart]⟩, ⟨_, b, hb, hc⟩, rfl⟩
  apply timeOk_plusSeconds env.clock 2
  · split <;> decide
  · split <;> decide

/-- The ticket under other names: the encrypted part is all that is kept. -/
def Rewrites (issued : Issued) (ticket : Ticket) : Prop :=
  ticket.encPart = issued.rep.ticket.encPart

theorem Sealed.opens_iff {P : Platform} (hP : P.Lawful) (hsep : P.cipher.KeySeparating)
    {issued : Issued} (h : Sealed P issued) {ticket : Ticket} (hticket : Rewrites issued ticket)
    {k : Bytes} {part : EncTicketPart} :
    (∃ b, P.cipher.decrypt issued.key.enctype k 2 ticket.encPart.cipher = .ok b ∧
      P.der.encTicketPart.decode b = .ok part) ↔ k = issued.key.key ∧ part = issued.part := by
  obtain ⟨draw, b, hb, hc⟩ := h.cipher
  have hdecode := hP.der.encTicketPart.decode_encode h.wf hb
  rw [hticket]
  constructor
  · rintro ⟨b', hb', hpart⟩
    have hk := hsep hc hb'
    subst hk
    cases (hP.cipher.decrypt_encrypt hc).symm.trans hb'
    exact ⟨rfl, Except.ok.inj (hpart.symm.trans hdecode)⟩
  · rintro ⟨rfl, rfl⟩
    exact ⟨b, hP.cipher.decrypt_encrypt hc, hdecode⟩

theorem Sealed.ofNumber_etype {P : Platform} {issued : Issued} (h : Sealed P issued)
    {ticket : Ticket} (hticket : Rewrites issued ticket) :
    Enctype.ofNumber ticket.encPart.etype = some issued.key.enctype := by
  rw [hticket, h.etype, Enctype.ofNumber_etypeNumber]

def Expired (issued : Issued) (t : Int) : Prop :=
  ¬ diffSeconds issued.part.endTime (now t).1 ≤ 0

def RefusedByTgs (P : Platform) (app : AppState) (t : Int) (issued : Issued) : Prop :=
  ∀ env req p, env.clock.reading 0 = t → TgsExchange.authenticate P env app req = .ok p →
    ¬ Rewrites issued p.apReq.ticket

/-- What the ticket is taken for: the password service takes only one asked for
under its name and still running, and the TGS takes none of those. -/
structure KeepsKinds (P : Platform) (req : KdcReq) (issued : Issued) (app : AppState) (t : Int) :
    Prop where
  kpasswd : ∀ env ap auth, env.clock.reading 0 = t → Rewrites issued ap.ticket →
    Kpasswd.verifyApReq P env app ap = .ok auth → ForChangepw req ∧ ¬ Expired issued t
  tgs : ForChangepw req → RefusedByTgs P app t issued

def SealedByKrbtgt (app : AppState) (issued : Issued) : Prop :=
  ∃ k, app.HasKey (principalFqn ("krbtgt/" ++ app.realm) app.realm) issued.key.enctype k ∧
    k.key = issued.key.key

/-- Under this key the ticket opens to a part that has not run out and whose
session key can be used. -/
def Serves (P : Platform) (issued : Issued) (usage : UInt32) (t : Int) (k : PrincipalKey) : Prop :=
  ∃ b part, P.cipher.decrypt issued.key.enctype k.key 2 issued.rep.ticket.encPart.cipher = .ok b ∧
    P.der.encTicketPart.decode b = .ok part ∧ diffSeconds part.endTime (now t).1 ≤ 0 ∧
    P.cipher.Opens issued.key.enctype part.key.value usage

theorem Sealed.opens {P : Platform} (hP : P.Lawful) {issued : Issued} (h : Sealed P issued) :
    ∃ b, P.cipher.decrypt issued.key.enctype issued.key.key 2 issued.rep.ticket.encPart.cipher =
      .ok b ∧ P.der.encTicketPart.decode b = .ok issued.part := by
  obtain ⟨draw, b, hb, hc⟩ := h.cipher
  exact ⟨b, hP.cipher.decrypt_encrypt hc, hP.der.encTicketPart.decode_encode h.wf hb⟩

def UnreadByKpasswd (P : Platform) (app : AppState) (t : Int) (issued : Issued) : Prop :=
  (∀ g : Realm, (realmToString g).eqIgnoreAsciiCase app.realm = false) ∨
    ∀ k, app.HasKey (principalFqn ("krbtgt/" ++ app.realm) app.realm) issued.key.enctype k →
      ¬ Serves P issued Kpasswd.usageApReqAuth t k

def UnreadByTgs (P : Platform) (app : AppState) (t : Int) (issued : Issued) : Prop :=
  ∀ sname realm k, app.HasKey (principalFqn (principalNameToString sname) (realmToString realm))
    issued.key.enctype k → ¬ Serves P issued 7 t k

theorem unreadByKpasswd_iff {P : Platform} (hP : P.Lawful) (app : AppState) (clock : Clock)
    {issued : Issued} (h : Sealed P issued) :
    UnreadByKpasswd P app (clock.reading 0) issued ↔
      ∀ env ap auth, env.clock.reading 0 = clock.reading 0 → Rewrites issued ap.ticket →
        Kpasswd.verifyApReq P env app ap ≠ .ok auth := by
  constructor
  · intro hunread env ap auth ht hrewrites hverify
    obtain ⟨e, k, part, hacc⟩ := Kpasswd.accepts_of_verifyApReq hverify
    rw [ht] at hacc
    have he : e = issued.key.enctype :=
      Option.some.inj (hacc.etype.symm.trans (h.ofNumber_etype hrewrites))
    subst he
    cases hunread with
    | inl hspelt => exact absurd hacc.named.2 (by simp [hspelt])
    | inr hunread =>
      obtain ⟨b, hb, hpart⟩ := hacc.ticket
      rw [hrewrites] at hb
      exact hunread k hacc.key ⟨b, part, hb, hpart, hacc.live, hacc.opens⟩
  · intro hrefused
    refine or_iff_not_imp_left.mpr fun hspelt k hk hserves => ?_
    simp only [not_forall, Bool.not_eq_false] at hspelt
    obtain ⟨g, hg⟩ := hspelt
    obtain ⟨b, part, hb, hpart, hlive, hopens⟩ := hserves
    let ticket : Ticket :=
      ⟨5, g, stringToPrincipalName "kadmin/changepw", issued.rep.ticket.encPart⟩
    have hrewrites : Rewrites issued ticket := rfl
    have hname : isChangepw (stringToPrincipalName "kadmin/changepw") = true := by decide +kernel
    obtain ⟨env, ap, auth, ht, hap, hverify, _⟩ :=
      Kpasswd.exists_verifyApReq hP (clock.sane 0).1 (clock.sane 0).2 ticket hname hg
        (h.ofNumber_etype hrewrites) hk hb hpart hlive hopens
    exact hrefused env ap auth ht (hap ▸ hrewrites) hverify

theorem unreadByTgs_iff {P : Platform} (hP : P.Lawful) (app : AppState) (clock : Clock)
    {issued : Issued} (h : Sealed P issued) :
    UnreadByTgs P app (clock.reading 0) issued ↔ RefusedByTgs P app (clock.reading 0) issued := by
  constructor
  · intro hunread env req p ht hp hrewrites
    have hverified := (TgsExchange.authenticate_eq_ok.mp hp).2
    rw [ht] at hverified
    have he : p.enctype = issued.key.enctype :=
      Option.some.inj (hverified.etype.symm.trans (h.ofNumber_etype hrewrites))
    obtain ⟨b, hb, hpart⟩ := hverified.ticket
    obtain ⟨c, hc, _⟩ := hverified.authenticator
    rw [he, hrewrites] at hb
    exact hunread _ _ p.issuerKey (he ▸ hverified.key)
      ⟨b, p.tgt, hb, hpart, hverified.live, _, c, he ▸ hc⟩
  · intro hrefused sname realm k hk hserves
    obtain ⟨b, part, hb, hpart, hlive, hopens⟩ := hserves
    obtain ⟨s, hs⟩ := hP.cipher.exists_draw
    let ticket : Ticket := ⟨5, realm, sname, issued.rep.ticket.encPart⟩
    have hrewrites : Rewrites issued ticket := rfl
    obtain ⟨apBytes, p, hap, hverified, hticket, _⟩ := TgsExchange.exists_verified hP hs clock
      ticket (h.ofNumber_etype hrewrites) hk hb hpart hlive hopens
    refine hrefused ⟨clock, fun _ => s⟩
      ⟨some [⟨TgsExchange.paTgsReq, apBytes⟩], none, realm, none, 0, []⟩ p rfl
      (TgsExchange.authenticate_eq_ok.mpr ⟨TgsExchange.apReq_eq_ok rfl hap, hverified⟩) ?_
    rw [hticket]
    exact hrewrites

theorem endTime_of_forChangepw {P : Platform} {env : Env} {app : AppState} {req : KdcReq}
    {issued : Issued} (h : AsExchange.issue P env app req = .ok issued) (hreq : ForChangepw req) :
    issued.part.endTime = plusSeconds (env.clock.reading 2) 300 := by
  obtain ⟨s, hs, hchangepw⟩ := hreq
  have hsname : AsExchange.ticketSname req = s := by
    rw [AsExchange.ticketSname, Option.mem_def.mp hs]
    exact if_pos hchangepw
  simp only [AsExchange.issue, bind_eq_ok, mapError_eq_ok, pure_eq_ok] at h
  obtain ⟨client, _, key, _, sessionKey, _, b, _, _, _, c, _, _, _, _, _, rfl⟩ := h
  change plusSeconds _ (if isChangepw (AsExchange.ticketSname req) then 300 else _) = _
  rw [hsname, if_pos hchangepw]

/-- Nothing in the sealed part says what the ticket is for, so that the kinds
are kept apart just when no key the other service reads opens the ticket to a
part it can use. -/
theorem ticketKinds_iff {P : Platform} (hP : P.Lawful) {env : Env} {app : AppState} {req : KdcReq}
    {issued : Issued} (hissue : AsExchange.issue P env app req = .ok issued) (later : AppState)
    (clock : Clock) :
    (ForChangepw req → issued.part.endTime = plusSeconds (env.clock.reading 2) 300) ∧
      (KeepsKinds P req issued later (clock.reading 0) ↔
        ((ForChangepw req → Expired issued (clock.reading 0)) →
          UnreadByKpasswd P later (clock.reading 0) issued) ∧
        (ForChangepw req → UnreadByTgs P later (clock.reading 0) issued)) := by
  have hsealed := sealed_of_issue hissue
  refine ⟨endTime_of_forChangepw hissue, ?_⟩
  rw [unreadByKpasswd_iff hP later clock hsealed, unreadByTgs_iff hP later clock hsealed]
  constructor
  · intro hkeeps
    refine ⟨fun hover env' ap auth ht hrewrites hverify => ?_, hkeeps.tgs⟩
    obtain ⟨hreq, hlive⟩ := hkeeps.kpasswd env' ap auth ht hrewrites hverify
    exact hlive (hover hreq)
  · intro ⟨hkpasswd, htgs⟩
    refine ⟨fun env' ap auth ht hrewrites hverify => ?_, htgs⟩
    by_contra hnot
    refine hkpasswd (fun hreq => ?_) env' ap auth ht hrewrites hverify
    by_contra hlive
    exact hnot ⟨hreq, hlive⟩

section Issue

variable {P : Platform} {app : AppState} {t : Int} {e : Enctype} {s : Nat}

theorem exists_authenticate (hP : P.Lawful) (hs : P.cipher.Works s) (h₀ : 0 ≤ t)
    (h : t < 253370764800 * nanosPerSec) {cname : PrincipalName} {realm : Realm} {dn : Dn}
    {entry : Entry} {ks : List PrincipalKey} {salt' : Bytes} {ck : PrincipalKey}
    (hdn : app.findPrincipal (principalFqn (principalNameToString cname) (realmToString realm)) =
      some dn)
    (hentry : app.entryAt dn = some entry) (hks : keys entry = .ok ks)
    (hsalt : salt entry = .ok salt') (hck : ks.find? (fun k => k.enctype == e) = some ck)
    (hopens : P.cipher.Opens e ck.key 1) (sname : Option PrincipalName) :
    ∃ padata, AsExchange.authenticate P ⟨Clock.stopped t h₀ h, fun _ => s⟩ app
      ⟨some padata, some cname, realm, sname, 0, []⟩ = .ok ⟨cname, dn, entry, e, ck⟩ := by
  obtain ⟨tsBytes, _, hts⟩ := hP.der.paEncTsEnc.exists_encode ⟨(now t).1, none⟩
    (timeOk_now (Clock.stopped t h₀ h) 0)
  obtain ⟨tsCipher, hcipher⟩ := hs.encrypt tsBytes hopens
  obtain ⟨data, _, hdata⟩ := hP.der.encryptedData.exists_encode ⟨e.etypeNumber, none, tsCipher⟩
    trivial
  have hlookup := single_eq_some.mp hdn
  have hget := present_eq_some.mp hentry
  have hskew : (diffSeconds (now t).1 (now t).1).natAbs ≤ clockSkewSecs := by
    rw [diffSeconds_self]
    decide
  refine ⟨[⟨AsExchange.paEncTimestamp, data⟩], ?_⟩
  simp only [AsExchange.authenticate, AsExchange.lookupClient, bind_eq_ok, require_eq_ok,
    mapError_eq_ok, keysOrStop_eq_ok, ensure_eq_ok, pure_eq_ok]
  exact ⟨cname, rfl, (dn, entry), ⟨[dn], hlookup, dn, rfl, some entry, hget, entry, rfl, rfl⟩, ks,
    hks, salt', hsalt, _, rfl, _, hdata, e, Enctype.ofNumber_etypeNumber e, ck, hck, tsBytes,
    hP.cipher.decrypt_encrypt hcipher, _, hts, ⟨⟩, hskew, rfl⟩

theorem sealingKey_eq_ok {env : Env} {req : KdcReq} {k : PrincipalKey}
    (hkey : app.HasKey (principalFqn (principalNameToString
      (krbtgtPrincipalName (realmToString req.reqBody.realm))) (realmToString req.reqBody.realm))
      e k) : AsExchange.sealingKey P env app req e = .ok k := by
  obtain ⟨ks, hks, hk⟩ := hkey
  obtain ⟨dn, entry, hdn, hentry, hkeys⟩ := AppState.principalKeys_eq_some.mp hks
  simp only [AsExchange.sealingKey, bind_eq_ok, require_eq_ok, keysOrStop_eq_ok]
  exact ⟨dn, hdn, entry, hentry, ks, hkeys, by rw [hk, Option.some_or]⟩

theorem exists_issue_sealed (hP : P.Lawful) (h₀ : 0 ≤ t) (h : t < 253370764800 * nanosPerSec)
    {cname : PrincipalName} {realm : Realm} {dn : Dn} {entry : Entry} {ks : List PrincipalKey}
    {salt' : Bytes} {ck k : PrincipalKey}
    (hdn : app.findPrincipal (principalFqn (principalNameToString cname) (realmToString realm)) =
      some dn)
    (hentry : app.entryAt dn = some entry) (hks : keys entry = .ok ks)
    (hsalt : salt entry = .ok salt') (hck : ks.find? (fun k => k.enctype == e) = some ck)
    (hpre : P.cipher.Opens e ck.key 1) (hrep : P.cipher.Opens e ck.key 3)
    (hseal : ∀ env req, req.reqBody.realm = realm →
      AsExchange.sealingKey P env app req e = .ok k)
    (hk : P.cipher.Opens k.enctype k.key 2) (sname : Option PrincipalName) :
    ∃ env req issued, AsExchange.issue P env app req = .ok issued ∧ req.reqBody.sname = sname ∧
      req.reqBody.realm = realm ∧ issued.key = k ∧ issued.part.key.type = e.etypeNumber ∧
      issued.part.key.value.length = e.keyLen ∧ ¬ Expired issued t := by
  obtain ⟨s, hs⟩ := hP.cipher.exists_draw
  obtain ⟨padata, hauth⟩ := exists_authenticate hP hs h₀ h hdn hentry hks hsalt hck hpre sname
  let env : Env := ⟨Clock.stopped t h₀ h, fun _ => s⟩
  let req : KdcReq := ⟨some padata, some cname, realm, sname, 0, []⟩
  obtain ⟨sessionKey, hsession⟩ := hs.randomBytes e.keyLen
  have hlifetime : 0 ≤ (if isChangepw (AsExchange.ticketSname req) then 300
      else ticketLifetimeSecs) ∧ (if isChangepw (AsExchange.ticketSname req) then 300
      else ticketLifetimeSecs) ≤ ticketLifetimeSecs := by
    split <;> decide
  have hend := timeOk_plusSeconds (Clock.stopped t h₀ h) 2 hlifetime.1 hlifetime.2
  have hnow := timeOk_now (Clock.stopped t h₀ h) 1
  let part := AsExchange.ticketPart P env app req ⟨cname, dn, entry, e, ck⟩ k sessionKey
  obtain ⟨b, hb, _⟩ := hP.der.encTicketPart.exists_encode part
    ⟨hnow, by simp [part, AsExchange.ticketPart], hend, by simp [part, AsExchange.ticketPart]⟩
  obtain ⟨c, hc⟩ := hs.encrypt b hk
  obtain ⟨r, hr, _⟩ := hP.der.encAsRepPart.exists_encode
    ⟨part.key, [], 0, none, part.flags, part.authTime, none, part.endTime, none, realm,
      AsExchange.ticketSname req, none, none⟩
    ⟨by simp, by simp, hnow, by simp, hend, by simp⟩
  obtain ⟨d, hd⟩ := hs.encrypt r hrep
  let issued : Issued := ⟨part, k, 5, 11, none, realm, cname, ⟨5, realm, AsExchange.ticketSname req,
    ⟨k.enctype.etypeNumber, some k.kvno, c⟩⟩, ⟨e.etypeNumber, some ck.kvno, d⟩⟩
  refine ⟨env, req, issued, ?_, rfl, rfl, rfl, rfl, hP.cipher.random_length hsession, ?_⟩
  · simp only [AsExchange.issue, bind_eq_ok, mapError_eq_ok, pure_eq_ok]
    exact ⟨_, hauth, k, hseal env req rfl, sessionKey, hsession, b, hb, (), hs.newContext, c, hc,
      r, hr, d, hd, rfl⟩
  · rw [Expired, not_not]
    exact diffSeconds_plusSeconds_le t hlifetime.1

theorem exists_issue (hP : P.Lawful) (h₀ : 0 ≤ t) (h : t < 253370764800 * nanosPerSec)
    {cname : PrincipalName} {realm : Realm} {dn : Dn} {entry : Entry} {ks : List PrincipalKey}
    {salt' : Bytes} {ck k : PrincipalKey}
    (hdn : app.findPrincipal (principalFqn (principalNameToString cname) (realmToString realm)) =
      some dn)
    (hentry : app.entryAt dn = some entry) (hks : keys entry = .ok ks)
    (hsalt : salt entry = .ok salt') (hck : ks.find? (fun k => k.enctype == e) = some ck)
    (hpre : P.cipher.Opens e ck.key 1) (hrep : P.cipher.Opens e ck.key 3)
    (hkey : app.HasKey (principalFqn (principalNameToString
      (krbtgtPrincipalName (realmToString realm))) (realmToString realm)) e k)
    (hk : P.cipher.Opens e k.key 2) (sname : Option PrincipalName) :
    ∃ env req issued, AsExchange.issue P env app req = .ok issued ∧ req.reqBody.sname = sname ∧
      issued.key = k ∧ issued.part.key.value.length = e.keyLen ∧ ¬ Expired issued t := by
  obtain ⟨env, req, issued, hissue, hsname, _, hissued, _, hlength, hlive⟩ :=
    exists_issue_sealed hP h₀ h hdn hentry hks hsalt hck hpre hrep
      (fun _ req hreq => sealingKey_eq_ok (hreq ▸ hkey)) (hkey.enctype_eq ▸ hk) sname
  exact ⟨env, req, issued, hissue, hsname, hissued, hlength, hlive⟩

end Issue

def holdsKeys (app : AppState) (principal : Str) (ks : List PrincipalKey) : Bool :=
  match (app.findPrincipal principal).bind app.entryAt with
  | none => false
  | some entry => (keys entry).toOption == some ks && (salt entry).toOption.isSome

theorem exists_client {app : AppState} {principal : Str} {ks : List PrincipalKey}
    (h : holdsKeys app principal ks = true) :
    ∃ dn entry salt', app.findPrincipal principal = some dn ∧ app.entryAt dn = some entry ∧
      keys entry = .ok ks ∧ salt entry = .ok salt' := by
  unfold holdsKeys at h
  split at h
  case h_1 => cases h
  case h_2 entry hentry =>
    obtain ⟨dn, hdn, hentry⟩ := Option.bind_eq_some_iff.mp hentry
    rw [Bool.and_eq_true, beq_iff_eq, toOption_eq_some, Option.isSome_iff_exists] at h
    obtain ⟨hks, salt', hsalt⟩ := h
    exact ⟨dn, entry, salt', hdn, hentry, hks, toOption_eq_some.mp hsalt⟩

theorem ideal_opens (b : UInt8) (usage : UInt32) :
    Platform.ideal.cipher.Opens .aes128CtsHmacSha1_96 (TgsExchange.sampleKey b).key usage :=
  Cipher.ideal_lawful.opens_of_length usage List.length_replicate

theorem principalFqn_alice :
    principalFqn (principalNameToString (stringToPrincipalName "alice"))
      (realmToString (stringToGstring "IRON.LO")) = "alice@IRON.LO" := by
  decide +kernel

theorem principalFqn_krbtgt :
    principalFqn (principalNameToString (krbtgtPrincipalName
      (realmToString (stringToGstring "IRON.LO")))) (realmToString (stringToGstring "IRON.LO")) =
      "krbtgt/IRON.LO@IRON.LO" := by
  decide +kernel

theorem holdsKeys_alice :
    holdsKeys Kpasswd.sampleApp "alice@IRON.LO" [TgsExchange.sampleKey 1] = true := by
  decide +kernel

theorem exists_issue_alice (sname : Option PrincipalName) :
    ∃ env req issued,
      AsExchange.issue Platform.ideal env Kpasswd.sampleApp req = .ok issued ∧
        req.reqBody.sname = sname ∧ issued.key = TgsExchange.sampleKey 4 ∧
        issued.part.key.value.length = 16 ∧ ¬ Expired issued 0 := by
  obtain ⟨dn, entry, salt', hdn, hentry, hks, hsalt⟩ := exists_client holdsKeys_alice
  exact exists_issue Platform.ideal_lawful (t := 0) (by decide) (by decide)
    (principalFqn_alice ▸ hdn) hentry hks hsalt
    (show [TgsExchange.sampleKey 1].find? _ = some (TgsExchange.sampleKey 1) from rfl)
    (ideal_opens 1 1) (ideal_opens 1 3)
    (principalFqn_krbtgt ▸ Kpasswd.sampleApp_krbtgt) (ideal_opens 4 2) sname

theorem not_forChangepw_none {req : KdcReq} (h : req.reqBody.sname = none) :
    ¬ ForChangepw req := by
  rintro ⟨s, hs, _⟩
  rw [h] at hs
  cases hs

theorem forChangepw_some {req : KdcReq}
    (h : req.reqBody.sname = some (stringToPrincipalName "kadmin/changepw")) :
    ForChangepw req :=
  ⟨_, h, by decide +kernel⟩

theorem ideal_opens_of_length {key : Bytes} (h : key.length = 16) (usage : UInt32) :
    Platform.ideal.cipher.Opens .aes128CtsHmacSha1_96 key usage :=
  Cipher.ideal_lawful.opens_of_length (e := .aes128CtsHmacSha1_96) usage h

theorem ticketKinds_iff_sample :
    ∃ env req issued,
      AsExchange.issue Platform.ideal env Kpasswd.sampleApp req = .ok issued ∧
        ¬ ForChangepw req ∧ ¬ KeepsKinds Platform.ideal req issued Kpasswd.sampleApp 0 ∧
        KeepsKinds Platform.ideal req issued TgsExchange.sampleApp 0 := by
  have hrealm : (realmToString (stringToGstring "IRON.LO")).eqIgnoreAsciiCase
      Kpasswd.sampleApp.realm = true := by decide +kernel
  have hnone : TgsExchange.sampleApp.principalKeys "krbtgt/IRON.LO@IRON.LO" = none := by
    decide +kernel
  obtain ⟨env, req, issued, hissue, hsname, hkey, hlength, hlive⟩ := exists_issue_alice none
  have hreq := not_forChangepw_none hsname
  have hkinds := fun later => (ticketKinds_iff Platform.ideal_lawful hissue later
    Clock.epoch).2
  refine ⟨env, req, issued, hissue, hreq, fun hkeeps => ?_, (hkinds _).mpr ⟨fun _ => ?_, ?_⟩⟩
  · obtain hspelt | hunread := ((hkinds _).mp hkeeps).1 fun h => absurd h hreq
    · exact absurd hrealm (by simp [hspelt])
    · obtain ⟨b, hb, hpart⟩ := (sealed_of_issue hissue).opens Platform.ideal_lawful
      refine hunread issued.key ?_ ⟨b, issued.part, hb, hpart, not_not.mp hlive, ?_⟩
      · rw [hkey]
        exact Kpasswd.sampleApp_krbtgt
      · rw [hkey]
        exact ideal_opens_of_length hlength _
  · refine .inr fun k hk => ?_
    obtain ⟨ks, hks, _⟩ := hk
    cases hnone.symm.trans hks
  · exact fun h => absurd h hreq

/-- A TGT under the name `kadmin/changepw` is accepted by the password service,
and a changepw ticket under the name of the krbtgt is answered by the TGS. -/
theorem rewritten_tickets_serve_for_each_other :
    (∃ env req issued env' ap auth,
      AsExchange.issue Platform.ideal env Kpasswd.sampleApp req = .ok issued ∧
        ¬ ForChangepw req ∧ Rewrites issued ap.ticket ∧
        Kpasswd.verifyApReq Platform.ideal env' Kpasswd.sampleApp ap = .ok auth) ∧
    ∃ env req issued env' req' ap issued',
      AsExchange.issue Platform.ideal env Kpasswd.sampleApp req = .ok issued ∧
        ForChangepw req ∧ TgsExchange.apReq Platform.ideal env' req' = .ok ap ∧
        Rewrites issued ap.ticket ∧
        TgsExchange.exchange Platform.ideal env' Kpasswd.sampleApp req' = .ok issued' := by
  have hrealm : (realmToString (stringToGstring "IRON.LO")).eqIgnoreAsciiCase
      Kpasswd.sampleApp.realm = true := by decide +kernel
  have hkrbtgt : principalFqn (principalNameToString (stringToPrincipalName "krbtgt/IRON.LO"))
      (realmToString (stringToGstring "IRON.LO")) = "krbtgt/IRON.LO@IRON.LO" := by decide +kernel
  constructor
  · obtain ⟨env, req, issued, hissue, hsname, hkey, hlength, hlive⟩ := exists_issue_alice none
    have hsealed := sealed_of_issue hissue
    obtain ⟨b, hb, hpart⟩ := hsealed.opens Platform.ideal_lawful
    have hname : isChangepw (stringToPrincipalName "kadmin/changepw") = true := by decide +kernel
    let ticket : Ticket := ⟨5, stringToGstring "IRON.LO", stringToPrincipalName "kadmin/changepw",
      issued.rep.ticket.encPart⟩
    have hrewrites : Rewrites issued ticket := rfl
    obtain ⟨env', ap, auth, _, hap, hverify, _⟩ :=
      Kpasswd.exists_verifyApReq Platform.ideal_lawful (t := 0) (by decide) (by decide) ticket hname
        hrealm (hsealed.ofNumber_etype hrewrites) (hkey ▸ Kpasswd.sampleApp_krbtgt) hb hpart
        (not_not.mp hlive) (hkey ▸ ideal_opens_of_length hlength _)
    exact ⟨env, req, issued, env', ap, auth, hissue, not_forChangepw_none hsname, hap ▸ hrewrites,
      hverify⟩
  · obtain ⟨env, req, issued, hissue, hsname, hkey, hlength, hlive⟩ :=
      exists_issue_alice (some (stringToPrincipalName "kadmin/changepw"))
    have hsealed := sealed_of_issue hissue
    obtain ⟨b, hb, hpart⟩ := hsealed.opens Platform.ideal_lawful
    have hservice : TgsExchange.keyPrincipal (stringToPrincipalName "krbtgt/IRON.LO")
        (realmToString (stringToGstring "IRON.LO")) = "krbtgt/IRON.LO@IRON.LO" := by
      decide +kernel
    have hserve : TgsExchange.Servable Platform.ideal.cipher Kpasswd.sampleApp
        issued.key.enctype :=
      ⟨stringToGstring "IRON.LO", none, TgsExchange.referralFor_own _ (by decide +kernel), .inr
        ⟨stringToPrincipalName "krbtgt/IRON.LO", .aes128CtsHmacSha1_96, TgsExchange.sampleKey 4,
          hservice ▸ Kpasswd.sampleApp_krbtgt, ideal_opens 4 2⟩⟩
    let ticket : Ticket := ⟨5, stringToGstring "IRON.LO", stringToPrincipalName "krbtgt/IRON.LO",
      issued.rep.ticket.encPart⟩
    have hrewrites : Rewrites issued ticket := rfl
    have hissuer : Kpasswd.sampleApp.HasKey (TgsExchange.issuerPrincipal ticket)
        issued.key.enctype issued.key := by
      rw [hkey, TgsExchange.issuerPrincipal, hkrbtgt]
      exact Kpasswd.sampleApp_krbtgt
    obtain ⟨env', req', ap, issued', _, hap, hticket, hissued, _⟩ :=
      TgsExchange.exists_exchange Platform.ideal_lawful (t := 0) (by decide) (by decide) ticket
        (hsealed.ofNumber_etype hrewrites) hissuer hb hpart (not_not.mp hlive) hsealed.wf.1
        (hkey ▸ ideal_opens_of_length hlength _) hserve
    exact ⟨env, req, issued, env', req', ap, issued', hissue, forChangepw_some hsname, hap,
      hticket ▸ hrewrites, hissued⟩

end IronDirectory.Kdc.TicketKinds
