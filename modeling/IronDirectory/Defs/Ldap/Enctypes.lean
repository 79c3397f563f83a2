import IronDirectory.Defs.Kdc.TicketKinds
import IronDirectory.Defs.Ldap.Gssapi

namespace IronDirectory.Ldap.Enctypes

open Base Crypto Kerberos Naming Storage Kdc Outcome

inductive Origin
  | as (env : Env) (req : KdcReq)
  | tgs (env : Env) (req : KdcReq)

def Origin.issue (P : Platform) (app : AppState) : Origin → Except Stop Issued
  | as env req => AsExchange.issue P env app req
  | tgs env req => TgsExchange.exchange P env app req

def preauthEnctype (P : Platform) (req : KdcReq) : Option Enctype := do
  let pa ← (req.padata.getD []).find? fun p => p.type == AsExchange.paEncTimestamp
  let encData ← (P.der.encryptedData.decode pa.value).toOption
  Enctype.ofNumber encData.etype

def krbtgtOf (req : KdcReq) : Str :=
  principalFqn (principalNameToString (krbtgtPrincipalName (realmToString req.reqBody.realm)))
    (realmToString req.reqBody.realm)

def Origin.SharesEnctype (P : Platform) (app : AppState) : Origin → Prop
  | as _ req => ∃ e k, preauthEnctype P req = some e ∧ app.HasKey (krbtgtOf req) e k
  | tgs _ _ => True

structure Written (P : Platform) (issued : Issued) (e : Enctype) : Prop where
  type : issued.part.key.type = e.etypeNumber
  length : issued.part.key.value.length = e.keyLen
  cipher : ∃ draw b, P.der.encTicketPart.encode issued.part = .ok b ∧
    P.cipher.encrypt draw issued.key.enctype issued.key.key 2 b =
      .ok issued.rep.ticket.encPart.cipher
  etype : issued.rep.ticket.encPart.etype = issued.key.enctype.etypeNumber

section Issue

variable {P : Platform} {env : Env} {app : AppState} {req : KdcReq} {issued : Issued}

theorem preauthEnctype_of_authenticate {client : AsExchange.Client}
    (h : AsExchange.authenticate P env app req = .ok client) :
    preauthEnctype P req = some client.enctype := by
  simp only [AsExchange.authenticate, bind_eq_ok, require_eq_ok, mapError_eq_ok, ensure_eq_ok,
    pure_eq_ok] at h
  obtain ⟨_, _, _, _, _, _, _, _, pa, hpa, encData, hdata, e, he, _, _, _, _, _, _, _, _, rfl⟩ := h
  simp only [preauthEnctype, Option.bind_eq_bind, Option.bind_eq_some_iff, toOption_eq_some]
  exact ⟨pa, hpa, encData, hdata, he⟩

theorem sealingKey_eq_ok_iff {e : Enctype} {k : PrincipalKey} :
    AsExchange.sealingKey P env app req e = .ok k ↔
      ∃ ks, app.principalKeys (krbtgtOf req) = some ks ∧
        (ks.find? fun k => k.enctype == e).or ks.head? = some k := by
  simp only [AsExchange.sealingKey, bind_eq_ok, require_eq_ok, keysOrStop_eq_ok,
    AppState.principalKeys_eq_some]
  constructor
  · rintro ⟨dn, hdn, entry, hentry, ks, hks, hk⟩
    exact ⟨ks, ⟨dn, entry, hdn, hentry, hks⟩, hk⟩
  · rintro ⟨ks, ⟨dn, entry, hdn, hentry, hks⟩, hk⟩
    exact ⟨dn, hdn, entry, hentry, ks, hks, hk⟩

theorem written_of_issue (hP : P.Lawful) (h : AsExchange.issue P env app req = .ok issued) :
    ∃ e ks, Written P issued e ∧ preauthEnctype P req = some e ∧
      app.principalKeys (krbtgtOf req) = some ks ∧
      (ks.find? fun k => k.enctype == e).or ks.head? = some issued.key ∧
      issued.rep.ticket.sname = AsExchange.ticketSname req ∧
      issued.rep.ticket.realm = req.reqBody.realm := by
  have hsealed := TicketKinds.sealed_of_issue h
  simp only [AsExchange.issue, bind_eq_ok, mapError_eq_ok, pure_eq_ok] at h
  obtain ⟨client, hclient, key, hkey, sessionKey, hsession, _, _, _, _, _, _, _, _, _, _, rfl⟩ := h
  obtain ⟨ks, hks, hfind⟩ := sealingKey_eq_ok_iff.mp hkey
  exact ⟨client.enctype, ks,
    ⟨rfl, hP.cipher.random_length hsession, hsealed.cipher, hsealed.etype⟩,
    preauthEnctype_of_authenticate hclient, hks, hfind, rfl, rfl⟩

theorem written_of_seal {g : TgsExchange.Grant} {p : TgsExchange.Presented} {nonce : UInt32}
    {draw : Nat → Nat} (hlength : g.sessionKey.length = g.key.enctype.keyLen)
    (h : g.seal P p nonce draw = .ok issued) :
    Written P issued issued.key.enctype ∧ issued.key = g.key ∧
      issued.rep.ticket.sname = g.sname ∧ issued.rep.ticket.realm = g.srealm := by
  simp only [TgsExchange.Grant.seal, bind_eq_ok, mapError_eq_ok, pure_eq_ok] at h
  obtain ⟨b, hb, _, _, c, hc, _, _, _, _, rfl⟩ := h
  exact ⟨⟨rfl, hlength, ⟨_, b, hb, hc⟩, rfl⟩, rfl, rfl, rfl⟩

theorem written_of_service (hP : P.Lawful) {p : TgsExchange.Presented}
    (h : TgsExchange.serviceTgsRep P env app req p = .ok issued) :
    Written P issued issued.key.enctype ∧ issued.rep.ticket.realm = req.reqBody.realm ∧
      app.HasKey (TgsExchange.keyPrincipal issued.rep.ticket.sname
        (realmToString req.reqBody.realm)) issued.key.enctype issued.key := by
  simp only [TgsExchange.serviceTgsRep, bind_eq_ok, require_eq_ok, keysOrStop_eq_ok,
    mapError_eq_ok] at h
  obtain ⟨sname, _, dn, hdn, entry, hentry, ks, hks, key, hkey, sessionKey, hsession, hseal⟩ := h
  obtain ⟨hwritten, hissued, hsname, hrealm⟩ :=
    written_of_seal (hP.cipher.random_length hsession) hseal
  refine ⟨hwritten, hrealm, ?_⟩
  rw [hissued, hsname]
  exact ⟨ks, AppState.principalKeys_eq_some.mpr ⟨dn, entry, hdn, hentry, hks⟩,
    TgsExchange.find?_enctype_or_head? (q := fun e => req.reqBody.etype.contains e.etypeNumber)
      hkey⟩

theorem written_of_exchange (hP : P.Lawful)
    (h : TgsExchange.exchange P env app req = .ok issued) :
    Written P issued issued.key.enctype := by
  simp only [TgsExchange.exchange, bind_eq_ok, TgsExchange.referral_eq_ok] at h
  obtain ⟨p, _, r, ⟨key, _, hticket⟩, hanswer⟩ := h
  cases r with
  | none => exact (written_of_service hP hanswer).1
  | some r =>
    cases hanswer
    obtain ⟨k, _, hr⟩ := Option.bind_eq_some_iff.mp hticket
    simp only [TgsExchange.referralTicket, Option.bind_eq_bind, Option.bind_eq_some_iff,
      toOption_eq_some] at hr
    obtain ⟨sessionKey, hsession, hseal⟩ := hr
    exact (written_of_seal (hP.cipher.random_length hsession) hseal).1

theorem Origin.sharesEnctype_iff (hP : P.Lawful) {o : Origin} (h : o.issue P app = .ok issued) :
    o.SharesEnctype P app ↔ Written P issued issued.key.enctype := by
  cases o with
  | tgs env req => exact ⟨fun _ => written_of_exchange hP h, fun _ => trivial⟩
  | as env req =>
    obtain ⟨e, ks, hwritten, hpreauth, hks, hfind, _, _⟩ := written_of_issue hP h
    constructor
    · rintro ⟨e', k, hpreauth', ks', hks', hk⟩
      cases hpreauth.symm.trans hpreauth'
      cases hks.symm.trans hks'
      rw [hk, Option.some_or] at hfind
      have henctype : k.enctype = e := by simpa using List.find?_some hk
      rw [← Option.some.inj hfind, henctype]
      exact hwritten
    · intro hsame
      have he : e = issued.key.enctype :=
        Enctype.etypeNumber_injective (hwritten.type.symm.trans hsame.type)
      refine ⟨e, issued.key, hpreauth, ks, hks, ?_⟩
      rw [he]
      exact TgsExchange.find?_enctype_or_head? (q := fun e' => e' == e) hfind

theorem Origin.exists_written (hP : P.Lawful) {o : Origin} (h : o.issue P app = .ok issued) :
    ∃ e, Written P issued e := by
  cases o with
  | tgs env req => exact ⟨_, written_of_exchange hP h⟩
  | as env req =>
    obtain ⟨e, _, hwritten, _⟩ := written_of_issue hP h
    exact ⟨e, hwritten⟩

theorem Origin.sharesEnctype_of_type (hP : P.Lawful) {o : Origin} (h : o.issue P app = .ok issued)
    (htype : issued.part.key.type = issued.key.enctype.etypeNumber) : o.SharesEnctype P app := by
  obtain ⟨session, hwritten⟩ := o.exists_written hP h
  obtain rfl := Enctype.etypeNumber_injective (hwritten.type.symm.trans htype)
  exact (o.sharesEnctype_iff hP h).mpr hwritten

end Issue

/-- What a client sends with a ticket: an authenticator sealed under the
ticket's session key, with the enctype the key declares. -/
structure Presentation (P : Platform) (usage : UInt32) (issued : Issued) where
  apReq : ApReq
  authenticator : Authenticator
  enctype : Enctype
  ticket : apReq.ticket = issued.rep.ticket
  declared : Enctype.ofNumber issued.part.key.type = some enctype
  sealing : ∃ draw b, P.der.authenticator.encode authenticator = .ok b ∧
    P.cipher.encrypt draw enctype issued.part.key.value usage b = .ok apReq.authenticator.cipher
  client : authenticator.crealm = issued.part.crealm ∧ authenticator.cname = issued.part.cname
  wf : issued.part.Wf ∧ authenticator.Wf

structure Presentation.Timely {P : Platform} {usage : UInt32} {issued : Issued}
    (x : Presentation P usage issued) (t : Int) : Prop where
  live : diffSeconds issued.part.endTime (now t).1 ≤ 0
  skew : (diffSeconds x.authenticator.ctime (now t).1).natAbs ≤ clockSkewSecs

def TgsReads (there : AppState) (issued : Issued) : Prop :=
  ∃ k, there.HasKey (TgsExchange.issuerPrincipal issued.rep.ticket) issued.key.enctype k ∧
    k.key = issued.key.key

def KpasswdReads (there : AppState) (issued : Issued) : Prop :=
  isChangepw issued.rep.ticket.sname = true ∧
    (realmToString issued.rep.ticket.realm).eqIgnoreAsciiCase there.realm = true ∧
    TicketKinds.SealedByKrbtgt there issued

def LdapReads (store : Store) (anyDn : Dn) (issued : Issued) : Prop :=
  ∃ ks k, Gssapi.lookupKeys store anyDn issued.rep.ticket.sname
      (realmToString issued.rep.ticket.realm) = .ok ks ∧
    ks.find? (fun k => k.enctype == issued.key.enctype) = some k ∧ k.key = issued.key.key

def Own (sk : EncryptionKey) (key : Bytes) (e : Enctype) : Prop :=
  key = sk.value ∧ e.etypeNumber = sk.type

section Accept

variable {P : Platform} {usage : UInt32} {issued : Issued} {session : Enctype}

theorem Written.opens_iff (hP : P.Lawful) (hexact : P.cipher.Exact)
    (h : Written P issued session) (hwf : issued.part.Wf) {k : Bytes} {part : EncTicketPart} :
    (∃ b, P.cipher.decrypt issued.key.enctype k 2 issued.rep.ticket.encPart.cipher = .ok b ∧
      P.der.encTicketPart.decode b = .ok part) ↔ k = issued.key.key ∧ part = issued.part :=
  TicketKinds.Sealed.opens_iff hP hexact.keySeparating ⟨hwf, h.cipher, h.etype⟩ rfl

theorem Presentation.enctype_eq (x : Presentation P usage issued) (h : Written P issued session) :
    x.enctype = session :=
  Option.some.inj (x.declared.symm.trans (by rw [h.type, Enctype.ofNumber_etypeNumber]))

theorem Presentation.opens_iff (hP : P.Lawful) (hexact : P.cipher.Exact)
    (x : Presentation P usage issued) (h : Written P issued session) {e : Enctype}
    {a : Authenticator} :
    (∃ b, P.cipher.decrypt e issued.part.key.value usage x.apReq.authenticator.cipher = .ok b ∧
      P.der.authenticator.decode b = .ok a) ↔ e = session ∧ a = x.authenticator := by
  obtain ⟨draw, b, hb, hc⟩ := x.sealing
  have hdecode := hP.der.authenticator.decode_encode x.wf.2 hb
  rw [x.enctype_eq h] at hc
  constructor
  · rintro ⟨b', hb', ha⟩
    obtain ⟨rfl, _⟩ := hexact hc hb'
    cases (hP.cipher.decrypt_encrypt hc).symm.trans hb'
    exact ⟨rfl, Except.ok.inj (ha.symm.trans hdecode)⟩
  · rintro ⟨rfl, rfl⟩
    exact ⟨b, hP.cipher.decrypt_encrypt hc, hdecode⟩

theorem Presentation.not_opens (hexact : P.cipher.Exact) (x : Presentation P usage issued)
    (h : Written P issued session) {e : Enctype} (hne : e ≠ session) :
    ∃ err, P.cipher.decrypt e issued.part.key.value usage x.apReq.authenticator.cipher =
      .error err := by
  obtain ⟨draw, b, _, hc⟩ := x.sealing
  rw [x.enctype_eq h] at hc
  cases hdec : P.cipher.decrypt e issued.part.key.value usage x.apReq.authenticator.cipher with
  | error err => exact ⟨err, rfl⟩
  | ok p => exact absurd (hexact hc hdec).1 hne

theorem Presentation.ofNumber_etype (x : Presentation P usage issued)
    (h : Written P issued session) :
    Enctype.ofNumber x.apReq.ticket.encPart.etype = some issued.key.enctype := by
  rw [x.ticket, h.etype, Enctype.ofNumber_etypeNumber]

theorem exists_presentation (hP : P.Lawful) (h : Written P issued session)
    (hwf : issued.part.Wf) (u : UInt32) (clock : Clock)
    (hlive : diffSeconds issued.part.endTime (now (clock.reading 0)).1 ≤ 0)
    (cksum : Option Checksum) (sub : Option EncryptionKey) :
    ∃ x : Presentation P u issued, x.Timely (clock.reading 0) ∧
      x.authenticator.cksum = cksum ∧ x.authenticator.subkey = sub := by
  obtain ⟨s, hs⟩ := hP.cipher.exists_draw
  let a : Authenticator := ⟨5, issued.part.crealm, issued.part.cname, cksum, 0,
    (now (clock.reading 0)).1, sub, none, none⟩
  obtain ⟨b, hb, _⟩ := hP.der.authenticator.exists_encode a (timeOk_now clock 0)
  obtain ⟨c, hc⟩ := hs.encrypt b (hP.cipher.opens_of_length u h.length)
  have hskew : (diffSeconds (now (clock.reading 0)).1 (now (clock.reading 0)).1).natAbs ≤
      clockSkewSecs := by
    rw [diffSeconds_self]
    decide
  exact ⟨⟨⟨5, 14, ⟨List.replicate 32 false⟩, issued.rep.ticket, ⟨session.etypeNumber, none, c⟩⟩, a,
    session, rfl, by rw [h.type, Enctype.ofNumber_etypeNumber], ⟨s, b, hb, hc⟩, ⟨rfl, rfl⟩, hwf,
    timeOk_now clock 0⟩, ⟨hlive, hskew⟩, rfl, rfl⟩

end Accept

def TgsAgrees (P : Platform) (env : Env) (there : AppState) (req : KdcReq) {issued : Issued}
    (x : Presentation P 7 issued) : Prop :=
  ∃ p, TgsExchange.authenticate P env there req = .ok p ∧ p.authenticator = x.authenticator ∧
    ∀ sk ∈ x.authenticator.subkey,
      Own sk (TgsExchange.replyKey p).1 (TgsExchange.replyKey p).2.1

def KpasswdAgrees (P : Platform) (env : Env) (there : AppState) {issued : Issued}
    (x : Presentation P Kpasswd.usageApReqAuth issued) : Prop :=
  (∃ auth, Kpasswd.verifyApReq P env there x.apReq = .ok auth ∧
    auth.authenticator = x.authenticator ∧
    ∀ sk ∈ x.authenticator.subkey, Own sk auth.privKey auth.privEnctype) ∨
  ∃ sk ∈ x.authenticator.subkey, Enctype.ofNumber sk.type = none ∧
    Kpasswd.verifyApReq P env there x.apReq =
      .error (.error ⟨.authError, "unsupported subkey enctype"⟩)

def LdapAgrees (P : Platform) (env : Env) (store : Store) (anyDn : Dn) (token : Bytes)
    {issued : Issued} (x : Presentation P 11 issued) : Prop :=
  ∃ ctx, Gssapi.accept P env token (Gssapi.lookupKeys store anyDn) = .ok ctx ∧
    ∀ sk ∈ x.authenticator.subkey, Own sk ctx.sessionKey ctx.enctype

def Presentation.GssChecked {P : Platform} {usage : UInt32} {issued : Issued}
    (x : Presentation P usage issued) : Prop :=
  ∃ c ∈ x.authenticator.cksum, c.type = Gssapi.gssChecksumType ∧ 24 ≤ c.checksum.length

section Agree

variable {P : Platform} {env : Env} {issued : Issued} {session : Enctype}

theorem replyKey_own_iff {p : TgsExchange.Presented} {sk : EncryptionKey}
    (h : p.authenticator.subkey = some sk) :
    Own sk (TgsExchange.replyKey p).1 (TgsExchange.replyKey p).2.1 ↔
      ∃ e, Enctype.ofNumber sk.type = some e := by
  cases he : Enctype.ofNumber sk.type with
  | some e =>
    simp only [TgsExchange.replyKey, h, he, Own, true_and]
    exact ⟨fun _ => ⟨e, rfl⟩, fun _ => (Enctype.ofNumber_eq_some_iff.mp he).symm⟩
  | none =>
    simp only [TgsExchange.replyKey, h, he, Own]
    constructor
    · rintro ⟨_, htype⟩
      rw [← htype, Enctype.ofNumber_etypeNumber] at he
      cases he
    · rintro ⟨e, he'⟩
      cases he'

theorem authenticate_unopened (hP : P.Lawful) (hexact : P.cipher.Exact)
    (h : Written P issued session) (hne : issued.key.enctype ≠ session) {there : AppState}
    (hreads : TgsReads there issued) {req : KdcReq} (x : Presentation P 7 issued)
    (hap : TgsExchange.apReq P env req = .ok x.apReq) (ht : x.Timely (env.clock.reading 0)) :
    TgsExchange.authenticate P env there req = .error (refuse env
      (realmToString req.reqBody.realm) krbApErrBadIntegrity "failed to decrypt authenticator") := by
  obtain ⟨k, hk, hkey⟩ := hreads
  obtain ⟨b, hb, hpart⟩ := (h.opens_iff hP hexact x.wf.1).mpr ⟨hkey, rfl⟩
  obtain ⟨err, herr⟩ := x.not_opens hexact h hne
  have hlookup : ∀ realm, TgsExchange.issuerKey P env there realm x.apReq.ticket =
      .ok (issued.key.enctype, k) := fun _ =>
    TgsExchange.issuerKey_eq_ok.mpr ⟨x.ofNumber_etype h, x.ticket ▸ hk⟩
  rw [← x.ticket] at hb
  simp only [TgsExchange.authenticate, hap, ok_bind, hlookup, hb, Except.mapError, hpart, ensure,
    ht.live, if_true, herr]
  rfl

theorem tgsAgrees_iff (hP : P.Lawful) (hexact : P.cipher.Exact) (h : Written P issued session)
    {there : AppState} (hreads : TgsReads there issued) {req : KdcReq}
    (x : Presentation P 7 issued) (hap : TgsExchange.apReq P env req = .ok x.apReq)
    (ht : x.Timely (env.clock.reading 0)) :
    TgsAgrees P env there req x ↔ issued.key.enctype = session ∧
      ∀ sk ∈ x.authenticator.subkey, ∃ e, Enctype.ofNumber sk.type = some e := by
  constructor
  · rintro ⟨p, hp, hauth, hown⟩
    refine ⟨?_, fun sk hsk => (replyKey_own_iff (hauth ▸ hsk)).mp (hown sk hsk)⟩
    by_contra hne
    cases hp.symm.trans (authenticate_unopened hP hexact h hne hreads x hap ht)
  · rintro ⟨he, hsub⟩
    obtain ⟨k, hk, hkey⟩ := hreads
    let p : TgsExchange.Presented := ⟨x.apReq, issued.key.enctype, k, issued.part, x.authenticator⟩
    refine ⟨p, TgsExchange.authenticate_eq_ok.mpr ⟨hap, ?_⟩, rfl, fun sk hsk => ?_⟩
    · refine ⟨x.ofNumber_etype h, ?_, ?_, ht.live, ?_, x.client, ht.skew⟩
      · exact x.ticket ▸ hk
      · have hticket := (h.opens_iff hP hexact x.wf.1).mpr ⟨hkey, rfl⟩
        rwa [← x.ticket] at hticket
      · exact (x.opens_iff hP hexact h).mpr ⟨he, rfl⟩
    · exact (replyKey_own_iff hsk).mpr (hsub sk hsk)

section PrivKey

variable {tgt : EncTicketPart} {e : Enctype} {a : Authenticator} {sk : EncryptionKey}

theorem privKey_none (h : a.subkey = none) :
    Kpasswd.privKey tgt e a = .ok (tgt.key.value, e) := by
  simp only [Kpasswd.privKey, h]

theorem privKey_unknown (h : a.subkey = some sk) (hsk : Enctype.ofNumber sk.type = none) :
    Kpasswd.privKey tgt e a = .error (.error ⟨.authError, "unsupported subkey enctype"⟩) := by
  simp only [Kpasswd.privKey, h, hsk]
  rfl

theorem privKey_known {f : Enctype} (h : a.subkey = some sk)
    (hsk : Enctype.ofNumber sk.type = some f) :
    Kpasswd.privKey tgt e a = .ok (sk.value, f) := by
  simp only [Kpasswd.privKey, h, hsk]
  rfl

end PrivKey

theorem verifyApReq_opened (hP : P.Lawful) (hexact : P.cipher.Exact)
    (h : Written P issued issued.key.enctype) {there : AppState}
    (hreads : KpasswdReads there issued) (x : Presentation P Kpasswd.usageApReqAuth issued)
    (ht : x.Timely (env.clock.reading 0)) :
    Kpasswd.verifyApReq P env there x.apReq = do
      let (key, e) ← Kpasswd.privKey issued.part issued.key.enctype x.authenticator
      return ⟨principalNameToString issued.part.cname, realmToString issued.part.crealm,
        hasFlag issued.part.flags flagInitial, issued.part.key.value, issued.key.enctype, key, e,
        x.authenticator⟩ := by
  obtain ⟨hname, hrealm, k, hk, hkey⟩ := hreads
  obtain ⟨b, hb, hpart⟩ := (h.opens_iff hP hexact x.wf.1).mpr ⟨hkey, rfl⟩
  obtain ⟨c, hc, hauth⟩ := (x.opens_iff hP hexact h).mpr ⟨rfl, rfl⟩
  have hetype := x.ofNumber_etype h
  have hlookup := Kpasswd.krbtgtKey_eq_ok.mpr hk
  rw [x.ticket] at hetype
  simp only [Kpasswd.verifyApReq, ensure, x.ticket, hname, hrealm, and_self, if_true, ok_bind,
    hetype, require_some, hlookup, Kpasswd.usageTicket, hb, Except.mapError, hpart, ht.live, hc,
    hauth, x.client, ht.skew]

theorem verifyApReq_unopened (hP : P.Lawful) (hexact : P.cipher.Exact)
    (h : Written P issued session) (hne : issued.key.enctype ≠ session) {there : AppState}
    (hreads : KpasswdReads there issued) (x : Presentation P Kpasswd.usageApReqAuth issued)
    (ht : x.Timely (env.clock.reading 0)) :
    Kpasswd.verifyApReq P env there x.apReq =
      .error (.error ⟨.authError, "authenticator does not decrypt"⟩) := by
  obtain ⟨hname, hrealm, k, hk, hkey⟩ := hreads
  obtain ⟨b, hb, hpart⟩ := (h.opens_iff hP hexact x.wf.1).mpr ⟨hkey, rfl⟩
  obtain ⟨err, herr⟩ := x.not_opens hexact h hne
  have hetype := x.ofNumber_etype h
  have hlookup := Kpasswd.krbtgtKey_eq_ok.mpr hk
  rw [x.ticket] at hetype
  simp only [Kpasswd.verifyApReq, ensure, x.ticket, hname, hrealm, and_self, if_true, ok_bind,
    hetype, require_some, hlookup, Kpasswd.usageTicket, hb, Except.mapError, hpart, ht.live, herr]
  rfl

theorem kpasswdAgrees_iff (hP : P.Lawful) (hexact : P.cipher.Exact) (h : Written P issued session)
    {there : AppState} (hreads : KpasswdReads there issued)
    (x : Presentation P Kpasswd.usageApReqAuth issued) (ht : x.Timely (env.clock.reading 0)) :
    KpasswdAgrees P env there x ↔ issued.key.enctype = session := by
  constructor
  · intro hagrees
    by_contra hne
    have hrefused := verifyApReq_unopened hP hexact h hne hreads x ht
    rcases hagrees with ⟨auth, hauth, _⟩ | ⟨sk, _, _, herror⟩
    · cases hauth.symm.trans hrefused
    · have htext := herror.symm.trans hrefused
      simp only [Except.error.injEq, Fault.error.injEq, Kpasswd.Refusal.mk.injEq, true_and] at htext
      exact absurd htext (by decide)
  · rintro rfl
    have hverify := verifyApReq_opened hP hexact h hreads x ht
    cases hsub : x.authenticator.subkey with
    | none =>
      rw [privKey_none hsub] at hverify
      exact .inl ⟨_, hverify, rfl, fun sk hsk => by cases hsub.symm.trans hsk⟩
    | some sk =>
      cases he : Enctype.ofNumber sk.type with
      | none =>
        rw [privKey_unknown hsub he] at hverify
        exact .inr ⟨sk, hsub, he, hverify⟩
      | some e =>
        rw [privKey_known hsub he] at hverify
        refine .inl ⟨_, hverify, rfl, fun sk' hsk => ?_⟩
        cases hsub.symm.trans hsk
        exact ⟨rfl, (Enctype.ofNumber_eq_some_iff.mp he).symm⟩

theorem exists_outputToken (hP : P.Lawful) {draw : Nat} (hdraw : P.cipher.Works draw)
    {e : Enctype} {key : Bytes} (hopens : P.cipher.Opens e key 12) {a : Authenticator}
    (ha : a.Wf) (flags : Nat) : ∃ token, Gssapi.outputToken P draw e key a flags = .ok token := by
  unfold Gssapi.outputToken
  split
  case isFalse => exact ⟨none, rfl⟩
  case isTrue =>
    obtain ⟨b, hb, _⟩ := hP.der.encApRepPart.exists_encode ⟨a.ctime, a.cusec, none, none⟩ ha
    obtain ⟨c, hc⟩ := hdraw.encrypt b hopens
    obtain ⟨r, hr, _⟩ := hP.der.apRep.exists_encode ⟨5, 15, e.etypeNumber, none, c⟩ trivial
    simp only [bind_eq_ok, mapError_eq_ok, pure_eq_ok]
    exact ⟨_, b, hb, c, hc, r, hr, rfl⟩

theorem subkey_own_iff {tgt : EncTicketPart} {a : Authenticator} {sk : EncryptionKey} {e : Enctype}
    (h : a.subkey = some sk) :
    Own sk ((a.subkey.map EncryptionKey.value).getD tgt.key.value) e ↔ sk.type = e.etypeNumber := by
  rw [h]
  exact ⟨fun hown => hown.2.symm, fun htype => ⟨rfl, htype.symm⟩⟩

theorem ldapAgrees_iff (hP : P.Lawful) (hexact : P.cipher.Exact) (h : Written P issued session)
    {store : Store} {anyDn : Dn} (hreads : LdapReads store anyDn issued) {token : Bytes}
    (x : Presentation P 11 issued) (hap : Gssapi.tokenApReq P token = .ok x.apReq)
    (ht : x.Timely (env.clock.reading 0)) (hcksum : x.GssChecked)
    (hdraw : P.cipher.Works (env.draw 0)) :
    LdapAgrees P env store anyDn token x ↔ issued.key.enctype = session ∧
      ∀ sk ∈ x.authenticator.subkey, sk.type = issued.rep.ticket.encPart.etype := by
  obtain ⟨ks, k, hks, hfind, hkey⟩ := hreads
  have hetype := x.ofNumber_etype h
  rw [x.ticket] at hetype
  constructor
  · rintro ⟨ctx, hctx, hown⟩
    simp only [Gssapi.accept, bind_eq_ok, mapError_eq_ok, require_eq_ok, ensure_eq_ok, pure_eq_ok]
      at hctx
    obtain ⟨ap, hap', ks', hks', e, he, k', hk', b, hb, tgt, htgt, _, _, c, hc, a, ha, _, _, _, _, _,
      _, _, _, _, _, _, _, rfl⟩ := hctx
    cases hap.symm.trans hap'
    rw [x.ticket] at he hb
    cases hetype.symm.trans he
    obtain ⟨_, rfl⟩ := (h.opens_iff hP hexact x.wf.1).mp ⟨b, hb, htgt⟩
    obtain ⟨hsession, rfl⟩ := (x.opens_iff hP hexact h).mp ⟨c, hc, ha⟩
    refine ⟨hsession, fun sk hsk => ?_⟩
    rw [h.etype]
    exact (subkey_own_iff hsk).mp (hown sk hsk)
  · rintro ⟨rfl, hsub⟩
    obtain ⟨b, hb, hpart⟩ := (h.opens_iff hP hexact x.wf.1).mpr ⟨hkey, rfl⟩
    obtain ⟨c, hc, hauth⟩ := (x.opens_iff hP hexact h).mpr ⟨rfl, rfl⟩
    obtain ⟨cksum, hmem, htype, hlen⟩ := hcksum
    obtain ⟨out, hout⟩ := exists_outputToken hP hdraw (hP.cipher.opens_of_length 12 h.length)
      x.wf.2 (Bytes.ofLe ((cksum.checksum.drop 20).take 4))
    refine ⟨⟨principalFqn (principalNameToString issued.part.cname)
      (realmToString issued.part.crealm),
      (x.authenticator.subkey.map EncryptionKey.value).getD issued.part.key.value,
      issued.key.enctype, out⟩, ?_, fun sk hsk => ?_⟩
    · simp only [Gssapi.accept, Gssapi.gssChecksumFlags, bind_eq_ok, mapError_eq_ok, require_eq_ok,
        ensure_eq_ok, pure_eq_ok]
      rw [← x.ticket] at hks hetype hb
      exact ⟨x.apReq, hap, ks, hks, issued.key.enctype, hetype, k, hfind, b, hb, issued.part, hpart,
        ⟨⟩, ht.live, c, hc, x.authenticator, hauth, ⟨⟩, x.client, ⟨⟩, ht.skew, cksum, hmem, ⟨⟩, htype,
        _, ⟨⟨⟩, hlen, rfl⟩, out, hout, rfl⟩
    · exact (subkey_own_iff hsk).mpr ((hsub sk hsk).trans h.etype)

end Agree

section Lookup

variable {P : Platform} {app : AppState} {issued : Issued}

theorem lookupKeys_of_principalKeys {sname : PrincipalName} {realm : Str} {ks : List PrincipalKey}
    (h : app.principalKeys (principalFqn (principalNameToString sname) realm) = some ks) :
    Gssapi.lookupKeys app.store app.baseDn sname realm = .ok ks := by
  obtain ⟨dn, entry, hdn, hentry, hks⟩ := AppState.principalKeys_eq_some.mp h
  have hfound : Gssapi.serviceEntry app.store app.baseDn
      (principalFqn (principalNameToString sname) realm) = some entry := by
    simp only [Gssapi.serviceEntry, Option.bind_eq_bind, Option.bind_eq_some_iff, toOption_eq_some]
    exact ⟨[dn], single_eq_some.mp hdn, dn, rfl, hentry⟩
  rw [Gssapi.lookupKeys, hfound]
  simp only [hks]

def Origin.InRealm (app : AppState) : Origin → Prop
  | as _ _ => True
  | tgs _ req => (realmToString req.reqBody.realm).asciiUpper = app.realm.asciiUpper

def Origin.krbtgt : Origin → Str
  | as _ req => krbtgtOf req
  | tgs _ req => principalFqn ("krbtgt/" ++ realmToString req.reqBody.realm)
      (realmToString req.reqBody.realm)

theorem Origin.hasKey (hP : P.Lawful) {o : Origin} (h : o.issue P app = .ok issued)
    (hrealm : o.InRealm app) :
    app.HasKey (if isChangepw issued.rep.ticket.sname then o.krbtgt
      else TgsExchange.issuerPrincipal issued.rep.ticket) issued.key.enctype issued.key := by
  cases o with
  | as env req =>
    obtain ⟨e, ks, _, _, hks, hfind, hsname, hticketRealm⟩ := written_of_issue hP h
    have hkey : app.HasKey (krbtgtOf req) issued.key.enctype issued.key :=
      ⟨ks, hks, TgsExchange.find?_enctype_or_head? (q := fun e' => e' == e) hfind⟩
    split
    case isTrue => exact hkey
    case isFalse hno =>
      have hname : issued.rep.ticket.sname =
          krbtgtPrincipalName (realmToString req.reqBody.realm) := by
        rw [hsname, AsExchange.ticketSname] at hno ⊢
        split
        · split
          · exact absurd ‹_› (by simp_all)
          · rfl
        · rfl
      rw [TgsExchange.issuerPrincipal, hname, hticketRealm]
      exact hkey
  | tgs env req =>
    change TgsExchange.exchange P env app req = .ok issued at h
    simp only [TgsExchange.exchange, bind_eq_ok, TgsExchange.referral_eq_ok] at h
    obtain ⟨p, _, r, ⟨key, hfor, hticket⟩, hanswer⟩ := h
    rw [TgsExchange.referralFor_own _ hrealm] at hfor
    cases hfor
    cases hticket
    obtain ⟨_, hticketRealm, hkey⟩ := written_of_service hP hanswer
    rw [TgsExchange.issuerPrincipal, hticketRealm]
    exact hkey

theorem TgsReads.of_hasKey (h : app.HasKey (TgsExchange.issuerPrincipal issued.rep.ticket)
    issued.key.enctype issued.key) : TgsReads app issued := ⟨issued.key, h, rfl⟩

theorem LdapReads.of_hasKey (h : app.HasKey (TgsExchange.issuerPrincipal issued.rep.ticket)
    issued.key.enctype issued.key) : LdapReads app.store app.baseDn issued := by
  obtain ⟨ks, hks, hfind⟩ := h
  exact ⟨ks, issued.key, lookupKeys_of_principalKeys hks, hfind, rfl⟩

end Lookup

section Samples

/-- A ticket for Alice, who has an AES-128 key, from a directory with the one
given krbtgt key. -/
theorem exists_issue_of_krbtgt (app : AppState) {k : PrincipalKey}
    (halice : TicketKinds.holdsKeys app "alice@IRON.LO" [TgsExchange.sampleKey 1] = true)
    (hkrbtgt : app.principalKeys "krbtgt/IRON.LO@IRON.LO" = some [k])
    (hlength : k.key.length = k.enctype.keyLen) (sname : Option PrincipalName) :
    ∃ env req issued, AsExchange.issue Platform.ideal env app req = .ok issued ∧
      issued.rep.ticket.sname = AsExchange.ticketSname req ∧ req.reqBody.sname = sname ∧
      issued.rep.ticket.realm = stringToGstring "IRON.LO" ∧
      req.reqBody.realm = stringToGstring "IRON.LO" ∧ issued.key = k ∧
      issued.part.key.type = Enctype.aes128CtsHmacSha1_96.etypeNumber ∧
      ¬ TicketKinds.Expired issued 0 := by
  have hP := Platform.ideal_lawful
  obtain ⟨dn, entry, salt', hdn, hentry, hks, hsalt⟩ := TicketKinds.exists_client halice
  have hseal : ∀ env req, req.reqBody.realm = stringToGstring "IRON.LO" →
      AsExchange.sealingKey Platform.ideal env app req .aes128CtsHmacSha1_96 = .ok k := by
    intro env req hrealm
    refine sealingKey_eq_ok_iff.mpr ⟨[k], ?_, ?_⟩
    · rw [krbtgtOf, hrealm, TicketKinds.principalFqn_krbtgt, hkrbtgt]
    · rw [List.find?_cons]
      split <;> rfl
  obtain ⟨env, req, issued, hissue, hsname, hrealm, hkey, htype, _, hlive⟩ :=
    TicketKinds.exists_issue_sealed hP (t := 0) (by decide) (by decide)
      (TicketKinds.principalFqn_alice ▸ hdn) hentry hks hsalt (show [TgsExchange.sampleKey 1].find? _ = some (TgsExchange.sampleKey 1) from rfl)
      (TicketKinds.ideal_opens 1 1) (TicketKinds.ideal_opens 1 3) hseal
      (hP.cipher.opens_of_length 2 hlength) sname
  obtain ⟨_, _, _, _, _, _, hticket, hticketRealm⟩ := written_of_issue hP hissue
  exact ⟨env, req, issued, hissue, hticket, hsname, hticketRealm.trans hrealm, hrealm, hkey, htype,
    hlive⟩

theorem sampleApp_issues (sname : Option PrincipalName) :
    ∃ env req issued, AsExchange.issue Platform.ideal env Kpasswd.sampleApp req = .ok issued ∧
      issued.rep.ticket.sname = AsExchange.ticketSname req ∧ req.reqBody.sname = sname ∧
      issued.rep.ticket.realm = stringToGstring "IRON.LO" ∧
      req.reqBody.realm = stringToGstring "IRON.LO" ∧
      issued.key = TgsExchange.sampleKey 4 ∧
      issued.part.key.type = Enctype.aes128CtsHmacSha1_96.etypeNumber ∧
      ¬ TicketKinds.Expired issued 0 :=
  exists_issue_of_krbtgt Kpasswd.sampleApp TicketKinds.holdsKeys_alice
    Kpasswd.sampleApp_evaluated.1 rfl sname

theorem sampleApp_issues_tgt :
    ∃ env req issued, AsExchange.issue Platform.ideal env Kpasswd.sampleApp req = .ok issued ∧
      isChangepw issued.rep.ticket.sname = false ∧ issued.key = TgsExchange.sampleKey 4 ∧
      issued.part.key.type = issued.key.enctype.etypeNumber ∧
      ¬ TicketKinds.Expired issued 0 := by
  obtain ⟨env, req, issued, hissue, hticket, hsname, _, hrealm, hkey, htype, hlive⟩ :=
    sampleApp_issues none
  refine ⟨env, req, issued, hissue, ?_, hkey, ?_, hlive⟩
  · rw [hticket, AsExchange.ticketSname, hsname, hrealm]
    decide +kernel
  · rw [htype, hkey]
    rfl

def stopped : Env := ⟨Clock.epoch, fun _ => 0⟩

theorem exists_presented {env : Env} {req : KdcReq} {app : AppState} {issued : Issued}
    (hissue : AsExchange.issue Platform.ideal env app req = .ok issued)
    (hlive : ¬ TicketKinds.Expired issued 0) (u : UInt32) (cksum : Option Checksum)
    (sub : Option EncryptionKey) :
    ∃ x : Presentation Platform.ideal u issued, x.Timely (stopped.clock.reading 0) ∧
      x.authenticator.cksum = cksum ∧ x.authenticator.subkey = sub := by
  obtain ⟨_, hwritten⟩ := Origin.exists_written Platform.ideal_lawful (o := .as env req) hissue
  exact exists_presentation Platform.ideal_lawful hwritten (TicketKinds.sealed_of_issue hissue).wf
    u stopped.clock (not_not.mp hlive) cksum sub

theorem exists_tgsReq (ap : ApReq) :
    ∃ req, TgsExchange.apReq Platform.ideal stopped req = .ok ap := by
  obtain ⟨b, _, hb⟩ := Platform.ideal_lawful.der.apReq.exists_encode ap trivial
  exact ⟨⟨some [⟨TgsExchange.paTgsReq, b⟩], none, stringToGstring "IRON.LO", none, 0, []⟩,
    TgsExchange.apReq_eq_ok rfl hb⟩

/-- The unary code with its numbers renamed so that the value numbered `n` is
the empty text, which a token can hold. -/
@[irreducible]
def shortCodec (n : Nat) : Codec ApReq where
  encode ap := .ok (List.replicate (Equiv.swap 0 n (Encodable.encode ap)) 0)
  decode b :=
    match Encodable.decode (Equiv.swap 0 n b.length) with
    | some ap => .ok ap
    | none => .error "out of range"

theorem shortCodec_lawful (n : Nat) : (shortCodec n).Lawful fun _ => True where
  exists_encode := by
    intro ap _
    rw [shortCodec]
    refine ⟨_, rfl, ?_⟩
    simp only [List.length_replicate, Equiv.swap_apply_self, Encodable.encodek]

theorem shortCodec_decode (ap : ApReq) :
    (shortCodec (Encodable.encode ap)).decode [] = .ok ap := by
  simp only [shortCodec, List.length_nil, Equiv.swap_apply_left, Encodable.encodek]

def shortFor (n : Nat) : Platform :=
  { Platform.ideal with der := { Codecs.unary with apReq := shortCodec n } }

theorem shortFor_lawful (n : Nat) : (shortFor n).Lawful :=
  ⟨Cipher.ideal_lawful, { Codecs.unary_lawful with apReq := shortCodec_lawful n }⟩

def emptyToken : Bytes := Gssapi.buildInitialContextToken Gssapi.tokIdApReq

theorem tokenApReq_emptyToken (ap : ApReq) :
    Gssapi.tokenApReq (shortFor (Encodable.encode ap)) emptyToken = .ok ap := by
  have hparse : Gssapi.parseInitialContextToken emptyToken = .ok Gssapi.tokIdApReq := rfl
  have hsplit : Gssapi.splitTokId Gssapi.tokIdApReq Gssapi.tokIdApReq = .ok [] := rfl
  simp only [Gssapi.tokenApReq, hparse, hsplit, Except.mapError, ok_bind, shortFor,
    shortCodec_decode]

def subkeyOf (e : Enctype) : EncryptionKey := ⟨e.etypeNumber, List.replicate e.keyLen 9⟩

/-- A GSS-API token with Alice's ticket, and a subkey. -/
theorem exists_token (sub : EncryptionKey) :
    ∃ n env req issued,
      AsExchange.issue (shortFor n) env Kpasswd.sampleApp req = .ok issued ∧
      isChangepw issued.rep.ticket.sname = false ∧ issued.key = TgsExchange.sampleKey 4 ∧
      issued.part.key.type = issued.key.enctype.etypeNumber ∧
      ∃ x : Presentation (shortFor n) 11 issued,
        Gssapi.tokenApReq (shortFor n) emptyToken = .ok x.apReq ∧
        x.Timely (stopped.clock.reading 0) ∧ x.GssChecked ∧
        x.authenticator.subkey = some sub := by
  obtain ⟨env, req, issued, hissue, hname, hkey, htype, hlive⟩ := sampleApp_issues_tgt
  obtain ⟨x, ht, hcksum, hsub⟩ := exists_presented hissue hlive 11
    (some ⟨Gssapi.gssChecksumType, List.replicate 24 0⟩) (some sub)
  -- neither the issue nor the presentation has an AP-REQ encoded
  refine ⟨Encodable.encode x.apReq, env, req, issued, hissue, hname, hkey, htype,
    ⟨x.apReq, x.authenticator, x.enctype, x.ticket, x.declared, x.sealing, x.client, x.wf⟩,
    tokenApReq_emptyToken x.apReq, ⟨ht.live, ht.skew⟩, ⟨_, hcksum, rfl, ?_⟩, hsub⟩
  exact List.length_replicate.ge

end Samples

/-- Each acceptor opens an authenticator, and goes on with its subkey, just when
the session key's enctype is the ticket's, and the subkey's is one the acceptor
keeps to. -/
theorem enctypes_agree_iff {P : Platform} (hP : P.Lawful) (hexact : P.cipher.Exact) {app : AppState}
    {o : Origin} {issued : Issued} (h : o.issue P app = .ok issued) :
    -- the directory the ticket comes from has the key each acceptor looks up
    (o.InRealm app → isChangepw issued.rep.ticket.sname = false →
      TgsReads app issued ∧ LdapReads app.store app.baseDn issued) ∧
    (o.InRealm app → isChangepw issued.rep.ticket.sname = true →
      o.krbtgt = principalFqn ("krbtgt/" ++ app.realm) app.realm →
        TicketKinds.SealedByKrbtgt app issued) ∧
    (∀ there env req (x : Presentation P 7 issued), TgsReads there issued →
      TgsExchange.apReq P env req = .ok x.apReq → x.Timely (env.clock.reading 0) →
        (TgsAgrees P env there req x ↔ o.SharesEnctype P app ∧
          ∀ sk ∈ x.authenticator.subkey, ∃ e, Enctype.ofNumber sk.type = some e)) ∧
    (∀ there env (x : Presentation P Kpasswd.usageApReqAuth issued), KpasswdReads there issued →
      x.Timely (env.clock.reading 0) →
        (KpasswdAgrees P env there x ↔ o.SharesEnctype P app)) ∧
    ∀ store anyDn env token (x : Presentation P 11 issued), LdapReads store anyDn issued →
      Gssapi.tokenApReq P token = .ok x.apReq → x.Timely (env.clock.reading 0) →
      x.GssChecked → P.cipher.Works (env.draw 0) →
        (LdapAgrees P env store anyDn token x ↔ o.SharesEnctype P app ∧
          ∀ sk ∈ x.authenticator.subkey, sk.type = issued.rep.ticket.encPart.etype) := by
  obtain ⟨session, hwritten⟩ := o.exists_written hP h
  have hshares : o.SharesEnctype P app ↔ issued.key.enctype = session := by
    rw [o.sharesEnctype_iff hP h]
    constructor
    · intro hsame
      exact Enctype.etypeNumber_injective (hsame.type.symm.trans hwritten.type)
    · rintro rfl
      exact hwritten
  refine ⟨?_, ?_, ?_, ?_, ?_⟩
  · intro hrealm hname
    have hkey := o.hasKey hP h hrealm
    rw [hname, if_neg (by decide)] at hkey
    exact ⟨.of_hasKey hkey, .of_hasKey hkey⟩
  · intro hrealm hname hkrbtgt
    have hkey := o.hasKey hP h hrealm
    rw [if_pos hname, hkrbtgt] at hkey
    exact ⟨issued.key, hkey, rfl⟩
  · intro there env req x hreads hap ht
    rw [hshares]
    exact tgsAgrees_iff hP hexact hwritten hreads x hap ht
  · intro there env x hreads ht
    rw [hshares]
    exact kpasswdAgrees_iff hP hexact hwritten hreads x ht
  · intro store anyDn env token x hreads hap ht hcksum hdraw
    rw [hshares]
    exact ldapAgrees_iff hP hexact hwritten hreads x hap ht hcksum hdraw

theorem enctypes_agree_iff_sample :
    (∃ env req issued, AsExchange.issue Platform.ideal env Kpasswd.sampleApp req = .ok issued ∧
      ∃ req', ∃ x : Presentation Platform.ideal 7 issued,
        x.authenticator.subkey = some (subkeyOf .aes256CtsHmacSha1_96) ∧
        TgsAgrees Platform.ideal stopped Kpasswd.sampleApp req' x) ∧
    (∃ env req issued, AsExchange.issue Platform.ideal env Kpasswd.sampleApp req = .ok issued ∧
      ∃ x : Presentation Platform.ideal Kpasswd.usageApReqAuth issued,
        x.authenticator.subkey = some (subkeyOf .aes256CtsHmacSha1_96) ∧
        KpasswdAgrees Platform.ideal stopped Kpasswd.sampleApp x) ∧
    ∀ e, ∃ n env req issued,
      AsExchange.issue (shortFor n) env Kpasswd.sampleApp req = .ok issued ∧
      ∃ x : Presentation (shortFor n) 11 issued,
        x.authenticator.subkey = some (subkeyOf e) ∧
        (LdapAgrees (shortFor n) stopped Kpasswd.sampleApp.store Kpasswd.sampleApp.baseDn
          emptyToken x ↔ e = .aes128CtsHmacSha1_96) := by
  have hP := Platform.ideal_lawful
  refine ⟨?_, ?_, fun e => ?_⟩
  · obtain ⟨env, req, issued, hissue, hname, -, htype, hlive⟩ := sampleApp_issues_tgt
    obtain ⟨x, ht, _, hsub⟩ := exists_presented hissue hlive 7 none
      (some (subkeyOf .aes256CtsHmacSha1_96))
    obtain ⟨req', hap⟩ := exists_tgsReq x.apReq
    obtain ⟨hreads, _, htgs, _⟩ :=
      enctypes_agree_iff hP Cipher.ideal_exact (o := .as env req) hissue
    refine ⟨env, req, issued, hissue, req', x, hsub,
      (htgs _ _ _ x (hreads trivial hname).1 hap ht).mpr ⟨?_, ?_⟩⟩
    · exact Origin.sharesEnctype_of_type hP hissue htype
    · intro sk hsk
      cases hsub.symm.trans hsk
      exact ⟨.aes256CtsHmacSha1_96, rfl⟩
  · obtain ⟨env, req, issued, hissue, hticket, hsname, hticketRealm, hrealm, hkey, htype, hlive⟩ :=
      sampleApp_issues (some (stringToPrincipalName "kadmin/changepw"))
    have hname : isChangepw issued.rep.ticket.sname = true := by
      rw [hticket, AsExchange.ticketSname, hsname, hrealm]
      decide +kernel
    obtain ⟨x, ht, _, hsub⟩ := exists_presented hissue hlive Kpasswd.usageApReqAuth none
      (some (subkeyOf .aes256CtsHmacSha1_96))
    obtain ⟨_, hsealed, _, hkpasswd, _⟩ :=
      enctypes_agree_iff hP Cipher.ideal_exact (o := .as env req) hissue
    have hkrbtgt : (Origin.as env req).krbtgt =
        principalFqn ("krbtgt/" ++ Kpasswd.sampleApp.realm) Kpasswd.sampleApp.realm := by
      rw [Origin.krbtgt, krbtgtOf, hrealm]
      decide +kernel
    refine ⟨env, req, issued, hissue, x, hsub, (hkpasswd _ _ x ⟨hname, ?_,
      hsealed trivial hname hkrbtgt⟩ ht).mpr ?_⟩
    · rw [hticketRealm]
      decide +kernel
    · exact Origin.sharesEnctype_of_type hP hissue (by rw [htype, hkey]; rfl)
  · obtain ⟨n, env, req, issued, hissue, hname, hkey, htype, x, hap, ht, hcksum, hsub⟩ :=
      exists_token (subkeyOf e)
    obtain ⟨hreads, _, _, _, hldap⟩ :=
      enctypes_agree_iff (shortFor_lawful n) Cipher.ideal_exact (o := .as env req) hissue
    obtain ⟨_, hwritten⟩ := Origin.exists_written (shortFor_lawful n) (o := .as env req) hissue
    refine ⟨n, env, req, issued, hissue, x, hsub, ?_⟩
    rw [hldap _ _ _ _ x (hreads trivial hname).2 hap ht hcksum
      ⟨rfl, fun _ => ⟨_, rfl⟩, fun _ _ => ⟨_, rfl⟩⟩, hsub, hwritten.etype, hkey]
    constructor
    · rintro ⟨_, hown⟩
      exact Enctype.etypeNumber_injective (hown _ rfl)
    · rintro rfl
      refine ⟨Origin.sharesEnctype_of_type (shortFor_lawful n) hissue htype, ?_⟩
      rintro sk ⟨⟩
      rfl

def unequalKey : PrincipalKey := ⟨.aes256CtsHmacSha1_96, 1, List.replicate 32 4⟩

def unequalApp : AppState where
  store := TgsExchange.addPrincipal (TgsExchange.addPrincipal
    ⟨.singleton TgsExchange.samplePartition, fun _ => .empty⟩ "alice" "alice@IRON.LO"
    (TgsExchange.sampleKey 1)) "krbtgt" "krbtgt/IRON.LO@IRON.LO" unequalKey
  indexSpec := indexSpec
  baseDn := TgsExchange.samplePartition.baseDn
  realm := "IRON.LO"
  topology := none
  ownPartitionId := none

/-- Alice's TGT is sealed with the krbtgt's AES-256 key and declares an AES-128
session key, and the TGS opens none of her authenticators. -/
theorem fallback_key_refused :
    ∃ env req issued, AsExchange.issue Platform.ideal env unequalApp req = .ok issued ∧
      TgsReads unequalApp issued ∧
      ∃ env' req', ∃ x : Presentation Platform.ideal 7 issued,
        TgsExchange.apReq Platform.ideal env' req' = .ok x.apReq ∧
        x.Timely (env'.clock.reading 0) ∧ x.authenticator.subkey = none ∧
        TgsExchange.authenticate Platform.ideal env' unequalApp req' = .error (refuse env'
          (realmToString req'.reqBody.realm) krbApErrBadIntegrity
          "failed to decrypt authenticator") := by
  have hP := Platform.ideal_lawful
  obtain ⟨env, req, issued, hissue, hticket, hsname, _, hrealm, hkey, htype, hlive⟩ :=
    exists_issue_of_krbtgt unequalApp (k := unequalKey) (by decide +kernel) (by decide +kernel) rfl
      none
  obtain ⟨session, hwritten⟩ := Origin.exists_written hP (o := .as env req) hissue
  have hne : issued.key.enctype ≠ session := by
    rintro rfl
    have hsame := hwritten.type
    rw [htype, hkey] at hsame
    exact absurd hsame (by decide)
  have hreads : TgsReads unequalApp issued := by
    have hfound := Origin.hasKey hP (o := .as env req) hissue trivial
    rw [hticket, AsExchange.ticketSname, hsname, hrealm, if_neg (by decide +kernel)] at hfound
    exact .of_hasKey hfound
  obtain ⟨x, ht, _, hsub⟩ := exists_presented hissue hlive 7 none none
  obtain ⟨req', hap⟩ := exists_tgsReq x.apReq
  exact ⟨env, req, issued, hissue, hreads, stopped, req', x, hap, ht, hsub,
    authenticate_unopened hP Cipher.ideal_exact hwritten hne hreads x hap ht⟩

end IronDirectory.Ldap.Enctypes
