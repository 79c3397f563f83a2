import IronDirectory.Defs.Kdc.Groups
import IronDirectory.Defs.Kdc.Issuer
import IronDirectory.Defs.Kdc.Kpasswd

namespace IronDirectory.Kdc.Kpasswd

open Base Crypto Kerberos Naming Storage Outcome

theorem krbtgtKey_eq_ok {app : AppState} {e : Enctype} {k : PrincipalKey} :
    krbtgtKey app e = .ok k ↔
      app.HasKey (principalFqn ("krbtgt/" ++ app.realm) app.realm) e k := by
  simp only [krbtgtKey, keyForEnctype, bind_eq_ok, require_eq_ok, mapError_eq_ok, AppState.HasKey,
    AppState.principalKeys_eq_some]
  constructor
  · rintro ⟨dn, hdn, entry, hentry, ks, hks, hk⟩
    exact ⟨ks, ⟨dn, entry, hdn, hentry, hks⟩, hk⟩
  · rintro ⟨ks, ⟨dn, entry, hdn, hentry, hks⟩, hk⟩
    exact ⟨dn, hdn, entry, hentry, ks, hks, hk⟩

structure Accepts (P : Platform) (app : AppState) (t : Int) (ap : ApReq) (e : Enctype)
    (k : PrincipalKey) (part : EncTicketPart) : Prop where
  named : isChangepw ap.ticket.sname = true ∧
    (realmToString ap.ticket.realm).eqIgnoreAsciiCase app.realm = true
  etype : Enctype.ofNumber ap.ticket.encPart.etype = some e
  key : app.HasKey (principalFqn ("krbtgt/" ++ app.realm) app.realm) e k
  ticket : ∃ b, P.cipher.decrypt e k.key usageTicket ap.ticket.encPart.cipher = .ok b ∧
    P.der.encTicketPart.decode b = .ok part
  live : diffSeconds part.endTime (now t).1 ≤ 0
  opens : P.cipher.Opens e part.key.value usageApReqAuth

theorem accepts_of_verifyApReq {P : Platform} {env : Env} {app : AppState} {ap : ApReq}
    {auth : Authenticated} (h : verifyApReq P env app ap = .ok auth) :
    ∃ e k part, Accepts P app (env.clock.reading 0) ap e k part := by
  simp only [verifyApReq, bind_eq_ok, ensure_eq_ok, require_eq_ok, mapError_eq_ok,
    krbtgtKey_eq_ok] at h
  obtain ⟨_, hnamed, e, he, k, hk, b, hb, part, hpart, _, hlive, c, hc, _⟩ := h
  exact ⟨e, k, part, hnamed, he, hk, ⟨b, hb, hpart⟩, hlive, _, c, hc⟩

theorem exists_verifyApReq {P : Platform} (hP : P.Lawful) {app : AppState} {t : Int} (h₀ : 0 ≤ t)
    (h : t < 253370764800 * nanosPerSec) (ticket : Ticket) {e : Enctype} {k : PrincipalKey}
    {part : EncTicketPart} {b : Bytes} (hname : isChangepw ticket.sname = true)
    (hrealm : (realmToString ticket.realm).eqIgnoreAsciiCase app.realm = true)
    (hetype : Enctype.ofNumber ticket.encPart.etype = some e)
    (hkey : app.HasKey (principalFqn ("krbtgt/" ++ app.realm) app.realm) e k)
    (hopen : P.cipher.decrypt e k.key usageTicket ticket.encPart.cipher = .ok b)
    (hpart : P.der.encTicketPart.decode b = .ok part)
    (hlive : diffSeconds part.endTime (now t).1 ≤ 0)
    (hsession : P.cipher.Opens e part.key.value usageApReqAuth) :
    ∃ env ap auth, env.clock.reading 0 = t ∧ ap.ticket = ticket ∧
      verifyApReq P env app ap = .ok auth ∧ auth.client = principalNameToString part.cname ∧
      auth.clientRealm = realmToString part.crealm ∧
      auth.initial = hasFlag part.flags flagInitial := by
  obtain ⟨s, hs⟩ := hP.cipher.exists_draw
  let authenticator : Authenticator :=
    ⟨5, part.crealm, part.cname, none, 0, (now t).1, none, none, none⟩
  obtain ⟨authBytes, _, hauth⟩ := hP.der.authenticator.exists_encode authenticator
    (timeOk_now (Clock.stopped t h₀ h) 0)
  obtain ⟨authCipher, hcipher⟩ := hs.encrypt authBytes hsession
  have hskew : (diffSeconds (now t).1 (now t).1).natAbs ≤ clockSkewSecs := by
    rw [diffSeconds_self]
    decide
  refine ⟨⟨Clock.stopped t h₀ h, fun _ => s⟩,
    ⟨5, 14, ⟨List.replicate 32 false⟩, ticket, ⟨e.etypeNumber, none, authCipher⟩⟩,
    ⟨principalNameToString part.cname, realmToString part.crealm,
      hasFlag part.flags flagInitial, part.key.value, e, part.key.value, e, authenticator⟩,
    rfl, rfl, ?_, rfl, rfl, rfl⟩
  simp only [verifyApReq, bind_eq_ok, ensure_eq_ok, require_eq_ok, mapError_eq_ok,
    krbtgtKey_eq_ok, pure_eq_ok]
  exact ⟨⟨⟩, ⟨hname, hrealm⟩, e, hetype, k, hkey, b, hopen, part, hpart, ⟨⟩, hlive, authBytes,
    hP.cipher.decrypt_encrypt hcipher, authenticator, hauth, ⟨⟩, ⟨rfl, rfl⟩, ⟨⟩, hskew,
    (part.key.value, e), rfl, rfl⟩

def Writable (P : Platform) (app : AppState) (dn : Dn) (entry : Entry) (target : Str) : Prop :=
  ∃ draw password entry' store', 8 ≤ password.length ∧
    setPassword P.cipher draw entry (((principalName entry).toOption).getD target) password =
      .ok entry' ∧
    app.store.putEntry dn entry' app.indexSpec = .ok store'

def Nameable (auth : Authenticated) (name : Str) : Prop :=
  name = auth.client ∨ ∃ pn, principalNameToString pn = name

def OwnEntry (auth : Authenticated) (entry : Entry) : Prop :=
  ∃ values, entry.get attrPrincipalName = some values ∧
    principalFqn auth.client auth.clientRealm ∈ values

/-- Some realm the request may name, or leave to its ticket, is the served one. -/
def Reaches (app : AppState) (auth : Authenticated) : Prop :=
  auth.clientRealm.eqIgnoreAsciiCase app.realm = true ∨
    ∃ g : Realm, (realmToString g).eqIgnoreAsciiCase app.realm = true

theorem change_eq_ok {P : Platform} {env : Env} {app : AppState} {auth : Authenticated}
    {version : UInt16} {userData : Bytes} {changed : Changed}
    (h : change P env app auth version userData = .ok changed) :
    ∃ name entry, Nameable auth name ∧ Reaches app auth ∧
      authorize app auth name (principalFqn name app.realm) = .ok ⟨⟩ ∧
      findTarget P app name (principalFqn name app.realm) = .ok changed.dn ∧
      app.store.getEntry changed.dn = .ok (some entry) ∧
      Writable P app changed.dn entry (principalFqn name app.realm) := by
  simp only [change, bind_eq_ok, ensure_eq_ok, require_eq_ok, mapError_eq_ok, pure_eq_ok] at h
  obtain ⟨c, hc, _, hrealm, _, hauthorize, dn, hdn, found, hfound, entry, hentry, _, hlong, entry',
    hset, store', hput, rfl⟩ := h
  have hwrite : Writable P app dn entry (principalFqn (c.targetName.getD auth.client) app.realm) :=
    ⟨env.draw 1, c.newPassword, entry', store', hlong, hset, hput⟩
  suffices hc : Nameable auth (c.targetName.getD auth.client) ∧ Reaches app auth from
    ⟨_, entry, hc.1, hc.2, hauthorize, hdn, hentry ▸ hfound, hwrite⟩
  unfold parseChange at hc
  split at hc
  case isTrue =>
    cases hc
    exact ⟨.inl rfl, .inl hrealm⟩
  case isFalse =>
    simp only [bind_eq_ok, mapError_eq_ok, pure_eq_ok] at hc
    obtain ⟨⟨password, targname, targrealm⟩, _, rfl⟩ := hc
    constructor
    · cases targname with
      | none => exact .inl rfl
      | some pn => exact .inr ⟨pn, rfl⟩
    · cases targrealm with
      | none => exact .inl hrealm
      | some g => exact .inr ⟨g, hrealm⟩

theorem exists_change {P : Platform} (hP : P.Lawful) (clock : Clock) {app : AppState}
    {auth : Authenticated} {name : Str} {dn : Dn} {entry : Entry} (hreach : Reaches app auth)
    (hname : Nameable auth name)
    (hauthorize : authorize app auth name (principalFqn name app.realm) = .ok ⟨⟩)
    (hdn : findTarget P app name (principalFqn name app.realm) = .ok dn)
    (hentry : app.store.getEntry dn = .ok (some entry))
    (hwrite : Writable P app dn entry (principalFqn name app.realm)) :
    ∃ env version userData changed, change P env app auth version userData = .ok changed ∧
      changed.dn = dn := by
  obtain ⟨draw, password, entry', store', hlong, hset, hput⟩ := hwrite
  obtain ⟨targname, rfl⟩ : ∃ n : Option PrincipalName,
      (n.map principalNameToString).getD auth.client = name := by
    obtain rfl | ⟨pn, rfl⟩ := hname
    · exact ⟨none, rfl⟩
    · exact ⟨some pn, rfl⟩
  obtain ⟨targrealm, hrealm⟩ : ∃ r : Option Realm,
      ((r.map realmToString).getD auth.clientRealm).eqIgnoreAsciiCase app.realm = true := by
    obtain hown | ⟨g, hg⟩ := hreach
    · exact ⟨none, hown⟩
    · exact ⟨some g, hg⟩
  obtain ⟨userData, _, hdec⟩ :=
    hP.der.chgPwdData.exists_encode ⟨password, targname, targrealm⟩ trivial
  refine ⟨⟨clock, fun _ => draw⟩, versionSet, userData, ⟨dn, ((principalName entry).toOption).getD
    (principalFqn ((targname.map principalNameToString).getD auth.client) app.realm), store'⟩, ?_,
    rfl⟩
  simp only [change, parseChange, if_neg (show versionSet ≠ versionChange by decide), bind_eq_ok,
    ensure_eq_ok, require_eq_ok, mapError_eq_ok, pure_eq_ok]
  exact ⟨_, ⟨_, hdec, rfl⟩, ⟨⟩, hrealm, ⟨⟩, hauthorize, dn, hdn, some entry, hentry, entry, rfl, ⟨⟩,
    hlong, entry', hset, store', hput, rfl⟩

theorem authorize_eq_ok {app : AppState} {auth : Authenticated} {name target : Str} :
    authorize app auth name target = .ok ⟨⟩ ↔
      isSelf app auth name = true ∧ auth.initial = true ∨
        isSelf app auth name = false ∧
          isDomainAdmin app (principalFqn auth.client auth.clientRealm) = true := by
  unfold authorize
  cases hself : isSelf app auth name <;> simp

/-- The requester has RID 500 or is a member of the group with RID 512, by what
is stored. -/
def Administrator (app : AppState) (auth : Authenticated) : Prop :=
  ∃ dn entry, app.store.getEntry dn = .ok (some entry) ∧ OwnEntry auth entry ∧
    (rid entry = some administratorRid ∨
      ∃ groupDn group, app.store.getEntry groupDn = .ok (some group) ∧
        rid group = some domainAdminsRid ∧ Pac.HasMember dn group)

def WritesOnlyOwn (P : Platform) (app : AppState) (auth : Authenticated) : Prop :=
  ¬ Administrator app auth →
    ∀ env version userData changed, change P env app auth version userData = .ok changed →
      ∃ entry, app.store.getEntry changed.dn = .ok (some entry) ∧ OwnEntry auth entry

def LeadsToOwn (P : Platform) (app : AppState) (auth : Authenticated) (names : Str → Prop) : Prop :=
  ∀ name dn entry, Nameable auth name → names name →
    findTarget P app name (principalFqn name app.realm) = .ok dn →
      app.store.getEntry dn = .ok (some entry) →
        OwnEntry auth entry ∨ ¬ Writable P app dn entry (principalFqn name app.realm)

theorem WritesOnlyOwn.leadsToOwn {P : Platform} (hP : P.Lawful) {app : AppState}
    {auth : Authenticated} {names : Str → Prop} (hown : WritesOnlyOwn P app auth)
    (hadmin : ¬ Administrator app auth) (hreach : Reaches app auth)
    (hnames : ∀ name, names name →
      authorize app auth name (principalFqn name app.realm) = .ok ⟨⟩) :
    LeadsToOwn P app auth names := by
  intro name dn entry hname hnamed hdn hentry
  by_cases hwrite : Writable P app dn entry (principalFqn name app.realm)
  · obtain ⟨env, version, userData, changed, hchange, hcdn⟩ :=
      exists_change hP Clock.epoch hreach hname
        (hnames name hnamed) hdn hentry hwrite
    obtain ⟨entry', hentry', howned⟩ := hown hadmin env version userData changed hchange
    rw [hcdn, hentry] at hentry'
    cases hentry'
    exact .inl howned
  · exact .inr hwrite

/-- The test for one's own name ignores case and the lookup does not, and the
test for an administrator reads the index. -/
theorem writesOnlyOwn_iff {P : Platform} (hP : P.Lawful) (app : AppState) (auth : Authenticated) :
    WritesOnlyOwn P app auth ↔ Administrator app auth ∨
      (auth.initial = false ∨ auth.clientRealm.eqIgnoreAsciiCase app.realm = false ∨
        LeadsToOwn P app auth fun name => name.eqIgnoreAsciiCase auth.client = true) ∧
      (isDomainAdmin app (principalFqn auth.client auth.clientRealm) = false ∨
        ¬ Reaches app auth ∨ LeadsToOwn P app auth fun name => isSelf app auth name = false) := by
  constructor
  · intro hown
    refine or_iff_not_imp_left.mpr fun hadmin => ⟨?_, ?_⟩
    · cases hinitial : auth.initial with
      | false => exact .inl rfl
      | true =>
        cases hrealm : auth.clientRealm.eqIgnoreAsciiCase app.realm with
        | false => exact .inr (.inl rfl)
        | true =>
          refine .inr (.inr (hown.leadsToOwn hP hadmin (.inl hrealm) fun name hsame => ?_))
          exact authorize_eq_ok.mpr (.inl ⟨by simp [isSelf, hsame, hrealm], hinitial⟩)
    · cases hdomain : isDomainAdmin app (principalFqn auth.client auth.clientRealm) with
      | false => exact .inl rfl
      | true =>
        refine .inr (or_iff_not_imp_left.mpr fun hreach => ?_)
        exact hown.leadsToOwn hP hadmin (not_not.mp hreach) fun name hother =>
          authorize_eq_ok.mpr (.inr ⟨hother, hdomain⟩)
  · intro hcond hadmin env version userData changed hchange
    obtain ⟨hself, hother⟩ := hcond.resolve_left hadmin
    obtain ⟨name, entry, hname, hreach, hauthorize, hdn, hentry, hwrite⟩ := change_eq_ok hchange
    refine ⟨entry, hentry, ?_⟩
    obtain ⟨hsame, hinitial⟩ | ⟨hsame, hdomain⟩ := authorize_eq_ok.mp hauthorize
    · simp only [isSelf, Bool.and_eq_true] at hsame
      rw [hinitial, hsame.2] at hself
      simp only [Bool.true_eq_false, false_or] at hself
      exact (hself name changed.dn entry hname hsame.1 hdn hentry).resolve_right (absurd hwrite)
    · rw [hdomain] at hother
      simp only [Bool.true_eq_false, false_or, not_not.mpr hreach] at hother
      exact (hother name changed.dn entry hname hsame hdn hentry).resolve_right (absurd hwrite)

def powerless : Value → Bool
  | .entry e => rid e != some administratorRid &&
    (rid e != some domainAdminsRid || (e.valuesOf "member").isEmpty)
  | .text _ => true

theorem not_administrator {app : AppState} (auth : Authenticated)
    (h : ∀ p ∈ app.store.registry.iter, ∀ row ∈ (app.store.clusters p.cluster).kv.entries,
      powerless row.2 = true) : ¬ Administrator app auth := by
  have hread : ∀ {dn : Dn} {e : Entry}, app.store.getEntry dn = .ok (some e) →
      powerless (.entry e) = true := by
    intro dn e he
    obtain ⟨p, hp, hfind⟩ := Option.bind_eq_some_iff.mp (Store.getEntry_eq_ok he)
    exact h p (PartitionRegistry.resolve_mem hp).1 _ (OrderedMap.mem_entries_iff.mpr hfind)
  rintro ⟨dn, entry, hentry, -, hrid | ⟨groupDn, group, hgroup, hrid, v, hv, -⟩⟩
  · have hnot := hread hentry
    simp [powerless, hrid] at hnot
  · have hnot := hread hgroup
    simp [powerless, hrid, List.ne_nil_of_mem hv] at hnot

def sampleApp : AppState where
  store :=
    let users := TgsExchange.addPrincipal (TgsExchange.addPrincipal
      ⟨.singleton TgsExchange.samplePartition, fun _ => .empty⟩ "alice" "alice@IRON.LO"
      (TgsExchange.sampleKey 1)) "krbtgt" "krbtgt/IRON.LO@IRON.LO" (TgsExchange.sampleKey 4)
    ((users.putEntry (TgsExchange.sampleDn "pc") (Entry.new.set "samaccountname" ["ALICE"])
      indexSpec).toOption).getD users
  indexSpec := indexSpec
  baseDn := TgsExchange.samplePartition.baseDn
  realm := "IRON.LO"
  topology := none
  ownPartitionId := none

def sampleComputer : Entry := Entry.new.set "samaccountname" ["ALICE"]

theorem sampleApp_evaluated :
    sampleApp.principalKeys "krbtgt/IRON.LO@IRON.LO" = some [TgsExchange.sampleKey 4] ∧
    (∀ p ∈ sampleApp.store.registry.iter,
      ∀ row ∈ (sampleApp.store.clusters p.cluster).kv.entries, powerless row.2 = true) ∧
    (findTarget Platform.ideal sampleApp "ALICE" "ALICE@IRON.LO").toOption =
      some (TgsExchange.sampleDn "pc") := by
  decide +kernel

theorem sampleApp_krbtgt : sampleApp.HasKey "krbtgt/IRON.LO@IRON.LO" .aes128CtsHmacSha1_96
    (TgsExchange.sampleKey 4) :=
  ⟨[TgsExchange.sampleKey 4], sampleApp_evaluated.1, rfl⟩

theorem sampleApp_not_administrator (auth : Authenticated) : ¬ Administrator sampleApp auth :=
  not_administrator auth sampleApp_evaluated.2.1

theorem sampleApp_findTarget :
    findTarget Platform.ideal sampleApp "ALICE" "ALICE@IRON.LO" =
      .ok (TgsExchange.sampleDn "pc") :=
  toOption_eq_some.mp sampleApp_evaluated.2.2

set_option maxRecDepth 20000 in
theorem sampleApp_getEntry :
    sampleApp.store.getEntry (TgsExchange.sampleDn "pc") = .ok (some sampleComputer) := rfl

theorem sampleApp_writable :
    Writable Platform.ideal sampleApp (TgsExchange.sampleDn "pc") sampleComputer
      "ALICE@IRON.LO" := by
  have hsome : ((setPassword Platform.ideal.cipher 0 sampleComputer
      (((principalName sampleComputer).toOption).getD "ALICE@IRON.LO")
      (List.replicate 8 0)).toOption.bind fun e => (sampleApp.store.putEntry
        (TgsExchange.sampleDn "pc") e sampleApp.indexSpec).toOption).isSome = true := by
    decide +kernel
  obtain ⟨store, hstore⟩ := Option.isSome_iff_exists.mp hsome
  obtain ⟨entry, hentry, hput⟩ := Option.bind_eq_some_iff.mp hstore
  exact ⟨0, List.replicate 8 0, entry, store, by decide, toOption_eq_some.mp hentry,
    toOption_eq_some.mp hput⟩

theorem sampleApp_accepts_alice :
    ∃ env ap auth, verifyApReq Platform.ideal env sampleApp ap = .ok auth ∧
      auth.client = "alice" ∧ auth.clientRealm = "IRON.LO" ∧ auth.initial = true := by
  have hP := Platform.ideal_lawful
  obtain ⟨c, b, hopen, hb⟩ := hP.exists_sealed (TgsExchange.ideal_opens_sampleKey 4)
    (ticketFlags [flagInitial, flagPreAuthent]) ⟨17, List.replicate 16 0⟩
    (stringToGstring "IRON.LO") (stringToPrincipalName "alice")
  have hname : isChangepw (stringToPrincipalName "kadmin/changepw") = true := by decide +kernel
  have hrealm : (realmToString (stringToGstring "IRON.LO")).eqIgnoreAsciiCase sampleApp.realm =
      true := by decide +kernel
  obtain ⟨env, ap, auth, _, _, hauth, hclient, hcrealm, hinitial⟩ :=
    exists_verifyApReq hP (t := 0) (by decide) (by decide)
      ⟨5, stringToGstring "IRON.LO", stringToPrincipalName "kadmin/changepw", ⟨17, none, c⟩⟩
      hname hrealm rfl sampleApp_krbtgt hopen hb (show diffSeconds 0 (now 0).1 ≤ 0 by decide)
      (hP.cipher.opens_of_length (e := .aes128CtsHmacSha1_96) usageApReqAuth rfl)
  refine ⟨env, ap, auth, hauth, hclient.trans ?_, hcrealm.trans ?_, hinitial.trans ?_⟩
  · decide +kernel
  · decide +kernel
  · decide +kernel

def sampleAuth : Authenticated :=
  ⟨"alice", "IRON.LO", true, [], .aes128CtsHmacSha1_96, [], .aes128CtsHmacSha1_96,
    ⟨5, stringToGstring "IRON.LO", stringToPrincipalName "alice", none, 0, 0, none, none, none⟩⟩

theorem sampleApp_reaches {auth : Authenticated} (hrealm : auth.clientRealm = "IRON.LO") :
    Reaches sampleApp auth := by
  refine .inl ?_
  rw [hrealm]
  decide

theorem not_ownEntry_sampleComputer (auth : Authenticated) : ¬ OwnEntry auth sampleComputer := by
  rintro ⟨values, hvalues, -⟩
  have hnone : sampleComputer.get attrPrincipalName = none := by decide
  cases hnone.symm.trans hvalues

theorem writesOnlyOwn_iff_sample :
    Platform.ideal.Lawful ∧
      WritesOnlyOwn Platform.ideal sampleApp { sampleAuth with initial := false } ∧
      ¬ WritesOnlyOwn Platform.ideal sampleApp sampleAuth := by
  refine ⟨Platform.ideal_lawful, ?_, fun hown => ?_⟩
  · refine (writesOnlyOwn_iff Platform.ideal_lawful _ _).mpr (.inr ⟨.inl rfl, .inl ?_⟩)
    decide +kernel
  · obtain ⟨hinitial | hrealm | hleads, -⟩ :=
      ((writesOnlyOwn_iff Platform.ideal_lawful _ _).mp hown).resolve_left
        (sampleApp_not_administrator _)
    · cases hinitial
    · exact absurd hrealm (by decide)
    · have howns := hleads "ALICE" _ _ (.inr ⟨stringToPrincipalName "ALICE", by decide +kernel⟩)
        (by decide) sampleApp_findTarget sampleApp_getEntry
      exact howns.elim (not_ownEntry_sampleComputer _) (absurd sampleApp_writable)

/-- Alice, no administrator, sets the password of the computer account by asking
for `ALICE`. -/
theorem respelled_name_writes_other_entry :
    ∃ env ap auth env' version userData changed,
      verifyApReq Platform.ideal env sampleApp ap = .ok auth ∧
        principalFqn auth.client auth.clientRealm = "alice@IRON.LO" ∧
        ¬ Administrator sampleApp auth ∧
        change Platform.ideal env' sampleApp auth version userData = .ok changed ∧
        changed.dn = TgsExchange.sampleDn "pc" ∧
        ∀ entry, sampleApp.store.getEntry changed.dn = .ok (some entry) →
          ¬ OwnEntry auth entry := by
  obtain ⟨env, ap, auth, hauth, hclient, hrealm, hinitial⟩ := sampleApp_accepts_alice
  have hfqn : principalFqn auth.client auth.clientRealm = "alice@IRON.LO" := by
    rw [hclient, hrealm]
    rfl
  have hself : isSelf sampleApp auth "ALICE" = true := by
    rw [isSelf, hclient, hrealm]
    decide
  obtain ⟨env', version, userData, changed, hchange, hdn⟩ :=
    exists_change Platform.ideal_lawful Clock.epoch
      (sampleApp_reaches hrealm) (.inr ⟨stringToPrincipalName "ALICE", by decide +kernel⟩)
      (authorize_eq_ok.mpr (.inl ⟨hself, hinitial⟩)) sampleApp_findTarget sampleApp_getEntry
      sampleApp_writable
  refine ⟨env, ap, auth, env', version, userData, changed, hauth, hfqn,
    sampleApp_not_administrator auth, hchange, hdn, ?_⟩
  intro entry hentry
  rw [hdn, sampleApp_getEntry] at hentry
  cases hentry
  exact not_ownEntry_sampleComputer auth

section Stale

def putAdmins (store : Store) (cn : Str) (members : List Str) : Store :=
  ((store.putEntry (TgsExchange.sampleDn cn) (((Entry.new.set "member" members)).set objectSidAttr
    [encodeBinaryAttr (Sid.encode ⟨1, 5, [21, 512]⟩)]) indexSpec).toOption).getD store

/-- The group is rewritten without Alice under another spelling of its name, so
her row stays. -/
def staleApp : AppState :=
  { sampleApp with
    store := putAdmins (putAdmins sampleApp.store "Admins" ["cn=alice,dc=iron"]) "ADMINS" [] }

theorem removed_member_is_domain_admin (auth : Authenticated) :
    ¬ Administrator staleApp auth ∧ isDomainAdmin staleApp "alice@IRON.LO" = true := by
  obtain ⟨hpowerless, hadmin⟩ : (∀ p ∈ staleApp.store.registry.iter,
      ∀ row ∈ (staleApp.store.clusters p.cluster).kv.entries, powerless row.2 = true) ∧
      isDomainAdmin staleApp "alice@IRON.LO" = true := by
    decide +kernel
  exact ⟨not_administrator auth hpowerless, hadmin⟩

end Stale

end IronDirectory.Kdc.Kpasswd
