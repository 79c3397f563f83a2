import IronDirectory.Defs.Kdc.TgsLaws

namespace IronDirectory.Kdc.TgsExchange

open Base Crypto Kerberos Naming Storage Outcome

theorem handle_eq_tgsRep {P : Platform} {env : Env} {app : AppState} {req : KdcReq}
    {rep : KdcRep} :
    handle P env app req = some (.tgsRep rep) ↔
      ∃ issued, exchange P env app req = .ok issued ∧ issued.rep = rep := by
  unfold handle
  cases exchange P env app req with
  | ok issued => simp [Except.map, respond]
  | error stop => cases stop <;> simp [Except.map, respond]

theorem exists_forged {P : Platform} (hP : P.Lawful) {app : AppState} {sname : PrincipalName}
    {realm : Realm} {e : Enctype} {k : PrincipalKey}
    (hkey : app.HasKey (principalFqn (principalNameToString sname) (realmToString realm)) e k)
    (hopens : P.cipher.Opens e k.key 2) (hserve : Servable P.cipher app e) (crealm : Realm)
    (cname : PrincipalName) :
    ∃ env req ap issued, apReq P env req = .ok ap ∧ ap.ticket.sname = sname ∧
      ap.ticket.realm = realm ∧ exchange P env app req = .ok issued ∧
      issued.part.crealm = crealm ∧ issued.part.cname = cname := by
  obtain ⟨c, b, hopen, htgt⟩ := hP.exists_sealed hopens reservedFlags
    ⟨e.etypeNumber, List.replicate e.keyLen 0⟩ crealm cname
  obtain ⟨env, req, ap, issued, _, hap, hticket, hissued, hrealm, hname⟩ :=
    exists_exchange hP (t := 0) (by decide) (by decide)
      ⟨5, realm, sname, ⟨e.etypeNumber, none, c⟩⟩ (Enctype.ofNumber_etypeNumber e) hkey
      hopen htgt (show diffSeconds 0 (now 0).1 ≤ 0 by decide) timeOk_zero
      (hP.cipher.opens_of_length 7 List.length_replicate) hserve
  refine ⟨env, req, ap, issued, hap, ?_, ?_, hissued, hrealm, hname⟩
  · rw [hticket]
  · rw [hticket]

def sampleKey (b : UInt8) : PrincipalKey := ⟨.aes128CtsHmacSha1_96, 1, List.replicate 16 b⟩

def sampleDn (cn : Str) : Dn := ⟨[⟨[⟨"cn", cn⟩]⟩, ⟨[⟨"dc", "iron"⟩]⟩]⟩

def samplePartition : Partition where
  id := ⟨"iron", by decide⟩
  forest := ⟨"iron", by decide⟩
  baseDn := ⟨[⟨[⟨"dc", "iron"⟩]⟩]⟩
  kind := .domain
  realm := some "IRON.LO"
  cluster := ⟨["http://127.0.0.1:2379"], none⟩
  superior := none
  subordinates := []
  ldapUrl := none
  kdcUrl := none
  domainSid := none
  netbiosName := none

def addPrincipal (store : Store) (cn principal : Str) (k : PrincipalKey) : Store :=
  let entry := ((Entry.new.set attrPrincipalName [principal]).set attrSalt ["salt"]).set attrKey
    [keyValue k.enctype k.key]
  ((store.putEntry (sampleDn cn) entry indexSpec).toOption).getD store

def sampleApp : AppState where
  store :=
    addPrincipal (addPrincipal (addPrincipal ⟨.singleton samplePartition, fun _ => .empty⟩
      "alice" "alice@IRON.LO" (sampleKey 1)) "fs" "host/fs@IRON.LO" (sampleKey 2))
      "peer" "krbtgt/IRON.LO@PEER.LO" (sampleKey 3)
  indexSpec := indexSpec
  baseDn := samplePartition.baseDn
  realm := "IRON.LO"
  topology := none
  ownPartitionId := none

theorem sampleApp_principalKeys :
    sampleApp.principalKeys "alice@IRON.LO" = some [sampleKey 1] ∧
      sampleApp.principalKeys "host/fs@IRON.LO" = some [sampleKey 2] ∧
      sampleApp.principalKeys "krbtgt/IRON.LO@PEER.LO" = some [sampleKey 3] := by
  decide +kernel

theorem sampleApp_alice : sampleApp.HasKey "alice@IRON.LO" .aes128CtsHmacSha1_96 (sampleKey 1) :=
  ⟨[sampleKey 1], sampleApp_principalKeys.1, rfl⟩

theorem sampleApp_fs : sampleApp.HasKey "host/fs@IRON.LO" .aes128CtsHmacSha1_96 (sampleKey 2) :=
  ⟨[sampleKey 2], sampleApp_principalKeys.2.1, rfl⟩

theorem sampleApp_peer :
    sampleApp.HasKey "krbtgt/IRON.LO@PEER.LO" .aes128CtsHmacSha1_96 (sampleKey 3) :=
  ⟨[sampleKey 3], sampleApp_principalKeys.2.2, rfl⟩

theorem ideal_opens_sampleKey (b : UInt8) :
    Platform.ideal.cipher.Opens .aes128CtsHmacSha1_96 (sampleKey b).key 2 :=
  Cipher.ideal_lawful.opens_of_length 2 List.length_replicate

theorem sampleApp_servable : Servable Platform.ideal.cipher sampleApp .aes128CtsHmacSha1_96 := by
  refine ⟨stringToGstring "IRON.LO", none, referralFor_own _ (by decide +kernel), .inr ?_⟩
  refine ⟨stringToPrincipalName "host/fs", .aes128CtsHmacSha1_96, sampleKey 2, ?_,
    ideal_opens_sampleKey 2⟩
  have hname : keyPrincipal (stringToPrincipalName "host/fs")
      (realmToString (stringToGstring "IRON.LO")) = "host/fs@IRON.LO" := by decide +kernel
  rw [hname]
  exact sampleApp_fs

def firstComponent (name : Str) : Str := name.takeWhile (· != '/')

def TicketGranting (sname : PrincipalName) : Prop :=
  firstComponent (principalNameToString sname) = "krbtgt"

def IssuerSound (P : Platform) (app : AppState) : Prop :=
  ∀ env req rep ap, handle P env app req = some (.tgsRep rep) → apReq P env req = .ok ap →
    TicketGranting ap.ticket.sname

/-- The service accepts a ticket of any principal whose key it can use, so it is
sound just when nobody but a ticket-granting principal has such a key. -/
theorem issuerSound_iff {P : Platform} (hP : P.Lawful) (app : AppState) :
    IssuerSound P app ↔
      ∀ sname realm e k,
        app.HasKey (principalFqn (principalNameToString sname) (realmToString realm)) e k →
          P.cipher.Opens e k.key 2 → TicketGranting sname ∨ ¬ Servable P.cipher app e := by
  constructor
  · intro hsound sname realm e k hkey hopens
    by_cases hserve : Servable P.cipher app e
    · obtain ⟨env, req, ap, issued, hap, hsname, _, hissued, _, _⟩ :=
        exists_forged hP hkey hopens hserve realm sname
      have := hsound env req issued.rep ap (handle_eq_tgsRep.mpr ⟨issued, hissued, rfl⟩) hap
      exact .inl (hsname ▸ this)
    · exact .inr hserve
  · intro hkeys env req rep ap hhandle hap
    obtain ⟨issued, hissued, _⟩ := handle_eq_tgsRep.mp hhandle
    obtain ⟨p, hp, hverified, _, _, _, hserve⟩ := exchange_eq_ok hP hissued
    cases hap.symm.trans hp
    exact (hkeys _ _ _ _ hverified.key hverified.opens).resolve_right (absurd hserve)

theorem issuerSound_iff_sample :
    Platform.ideal.Lawful ∧ (IssuerSound Platform.ideal sampleApp ↔
      ∀ sname realm e k,
        sampleApp.HasKey (principalFqn (principalNameToString sname) (realmToString realm)) e k →
          Platform.ideal.cipher.Opens e k.key 2 →
            TicketGranting sname ∨ ¬ Servable Platform.ideal.cipher sampleApp e) :=
  ⟨Platform.ideal_lawful, issuerSound_iff Platform.ideal_lawful sampleApp⟩

/-- A ticket sealed with Alice's own key, naming the administrator, is traded for
a ticket that names the administrator. -/
theorem user_key_vouches_for_administrator :
    ∃ env req ap issued,
      handle Platform.ideal env sampleApp req = some (.tgsRep issued.rep) ∧
        exchange Platform.ideal env sampleApp req = .ok issued ∧
        apReq Platform.ideal env req = .ok ap ∧ issuerPrincipal ap.ticket = "alice@IRON.LO" ∧
        ¬ TicketGranting ap.ticket.sname ∧
        issued.part.cname = stringToPrincipalName "administrator" ∧
        issued.part.crealm = stringToGstring "IRON.LO" := by
  have hname : principalFqn (principalNameToString (stringToPrincipalName "alice"))
      (realmToString (stringToGstring "IRON.LO")) = "alice@IRON.LO" := by decide +kernel
  obtain ⟨env, req, ap, issued, hap, hsname, hrealm, hissued, hcrealm, hcname⟩ :=
    exists_forged Platform.ideal_lawful (hname ▸ sampleApp_alice) (ideal_opens_sampleKey 1)
      sampleApp_servable (stringToGstring "IRON.LO") (stringToPrincipalName "administrator")
  refine ⟨env, req, ap, issued, handle_eq_tgsRep.mpr ⟨issued, hissued, rfl⟩, hissued, hap, ?_, ?_,
    hcname, hcrealm⟩
  · rw [issuerPrincipal, hsname, hrealm, hname]
  · rw [hsname, TicketGranting]
    decide +kernel

def SameRealm (a b : Str) : Prop := a.asciiUpper = b.asciiUpper

def InterRealm (app : AppState) (sname : PrincipalName) (realm : Realm) : Prop :=
  (∃ r : Str, principalNameToString sname = "krbtgt/" ++ r) ∧
    ¬ SameRealm (realmToString realm) app.realm

/-- No ticket issued on the word of another realm names a client of this one. -/
def TrustContained (P : Platform) (app : AppState) : Prop :=
  ∀ env req issued ap, exchange P env app req = .ok issued → apReq P env req = .ok ap →
    InterRealm app ap.ticket.sname ap.ticket.realm →
      ¬ SameRealm (realmToString issued.part.crealm) app.realm

/-- Nothing ties the client realm to the issuer, so trust is contained just when
there is no usable inter-realm key, or no ticket can spell this realm. -/
theorem trustContained_iff {P : Platform} (hP : P.Lawful) (app : AppState) :
    TrustContained P app ↔
      (∀ sname realm e k, InterRealm app sname realm →
        app.HasKey (principalFqn (principalNameToString sname) (realmToString realm)) e k →
          P.cipher.Opens e k.key 2 → ¬ Servable P.cipher app e) ∨
        ∀ g : Realm, ¬ SameRealm (realmToString g) app.realm := by
  constructor
  · intro hcontained
    by_cases hspelt : ∃ g : Realm, SameRealm (realmToString g) app.realm
    · obtain ⟨g, hg⟩ := hspelt
      refine .inl fun sname realm e k hinter hkey hopens hserve => ?_
      obtain ⟨env, req, ap, issued, hap, hsname, hrealm, hissued, hcrealm, _⟩ :=
        exists_forged hP hkey hopens hserve g sname
      refine hcontained env req issued ap hissued hap ?_ ?_
      · rwa [hsname, hrealm]
      · rwa [hcrealm]
    · exact .inr fun g hg => hspelt ⟨g, hg⟩
  · intro hcond env req issued ap hissued hap hinter
    obtain ⟨p, hp, hverified, _, _, _, hserve⟩ := exchange_eq_ok hP hissued
    cases hap.symm.trans hp
    cases hcond with
    | inl hkeys => exact absurd hserve (hkeys _ _ _ _ hinter hverified.key hverified.opens)
    | inr hspelt => exact hspelt _

theorem trustContained_iff_sample :
    Platform.ideal.Lawful ∧ (TrustContained Platform.ideal sampleApp ↔
      (∀ sname realm e k, InterRealm sampleApp sname realm →
        sampleApp.HasKey (principalFqn (principalNameToString sname) (realmToString realm)) e k →
          Platform.ideal.cipher.Opens e k.key 2 →
            ¬ Servable Platform.ideal.cipher sampleApp e) ∨
        ∀ g : Realm, ¬ SameRealm (realmToString g) sampleApp.realm) :=
  ⟨Platform.ideal_lawful, trustContained_iff Platform.ideal_lawful sampleApp⟩

/-- The peer realm's key is enough for a ticket naming this realm's
administrator. -/
theorem peer_key_vouches_for_local_client :
    ∃ env req ap issued,
      exchange Platform.ideal env sampleApp req = .ok issued ∧
        apReq Platform.ideal env req = .ok ap ∧
        issuerPrincipal ap.ticket = "krbtgt/IRON.LO@PEER.LO" ∧
        InterRealm sampleApp ap.ticket.sname ap.ticket.realm ∧
        issued.part.cname = stringToPrincipalName "administrator" ∧
        realmToString issued.part.crealm = sampleApp.realm := by
  have hname : principalFqn (principalNameToString (stringToPrincipalName "krbtgt/IRON.LO"))
      (realmToString (stringToGstring "PEER.LO")) = "krbtgt/IRON.LO@PEER.LO" := by decide +kernel
  obtain ⟨env, req, ap, issued, hap, hsname, hrealm, hissued, hcrealm, hcname⟩ :=
    exists_forged Platform.ideal_lawful (hname ▸ sampleApp_peer) (ideal_opens_sampleKey 3)
      sampleApp_servable (stringToGstring "IRON.LO") (stringToPrincipalName "administrator")
  refine ⟨env, req, ap, issued, hissued, hap, ?_, ⟨⟨"IRON.LO", ?_⟩, ?_⟩, hcname, ?_⟩
  · rw [issuerPrincipal, hsname, hrealm, hname]
  · rw [hsname]
    decide +kernel
  · rw [hrealm, SameRealm]
    decide +kernel
  · rw [hcrealm]
    decide +kernel

end IronDirectory.Kdc.TgsExchange
