import IronDirectory.Defs.Bootstrap.Site
import IronDirectory.Defs.Config.Permanence
import IronDirectory.Defs.Kdc.PrincipalLaws

namespace IronDirectory.Bootstrap

open Base Crypto Naming Storage Config Kdc Prog

def Object.sid (sid : Sid) : Object → Sid
  | base => sid
  | krbtgt => sid.withSubAuthority krbtgtRid
  | administrator => sid.withSubAuthority administratorRid

def Carries (e : Entry) (sid : Sid) : Prop :=
  e.get objectSidAttr = some [encodeBinaryAttr sid.encode]

structure Filled (data : PartitionData) (text : Str) : Prop where
  domainSid : data.domainSid = some text
  netbiosName : data.netbiosName.isSome = true

section Entries

variable {fips : Ldap.Provider} {draws : Draws} {s : Settings} {sid : Sid} {e : Entry}

theorem carries_accountEntry (name : Str) (sid : Sid) (rid : UInt32) :
    Carries (accountEntry name sid rid) (sid.withSubAuthority rid) := by
  rw [Carries, accountEntry, Entry.get_set, if_neg (by decide), Entry.get_set, if_pos rfl]

theorem Carries.setPassword {c : Cipher} {draw : Nat} {name : Str} {password : Bytes} {e' : Entry}
    (h : Carries e sid) (hset : Kdc.setPassword c draw e name password = .ok e') :
    Carries e' sid := by
  obtain ⟨salt, values, hall⟩ := setPassword_eq_ok hset
  obtain rfl : _ = e' := Except.ok.inj ((hall e).symm.trans hset)
  rw [Carries, Entry.get_set, if_neg (by decide), Entry.get_set, if_neg (by decide),
    Entry.get_set, if_neg (by decide)]
  exact h

theorem carries_krbtgtEntry (h : krbtgtEntry fips s draws sid = .ok e) :
    Carries e (Object.krbtgt.sid sid) := by
  obtain ⟨secret, -, h⟩ := Outcome.bind_eq_ok.mp h
  exact (carries_accountEntry _ sid krbtgtRid).setPassword (Outcome.mapError_eq_ok.mp h)

theorem carries_adminEntry (h : adminEntry fips s draws sid = .ok e) :
    Carries e (Object.administrator.sid sid) := by
  obtain ⟨hash, -, h⟩ := Outcome.bind_eq_ok.mp h
  refine Carries.setPassword ?_ (Outcome.mapError_eq_ok.mp h)
  rw [Carries, Entry.get_set, if_neg (by decide), Entry.get_set, if_neg (by decide)]
  exact carries_accountEntry _ sid administratorRid

theorem fill_of_filled {stored : Partition} {text : Str} (h : Filled (.ofPartition stored) text) :
    fill fips s draws stored = .ok stored := by
  have hsid : stored.domainSid = some text := h.domainSid
  obtain ⟨name, hname⟩ := Option.isSome_iff_exists.mp h.netbiosName
  have hname' : stored.netbiosName = some name := hname
  simp only [fill, ensureDomainSid, hsid, Outcome.ok_bind, hname']
  rfl

end Entries

namespace Site

variable (json : Json) {s : Settings} {reg : PartitionRegistry} (site : Site s reg)

/-- The root record has this SID, and nothing is missing in it. -/
def Settled (t : Clusters) (text : Str) : Prop :=
  ∃ data, site.rootSlot.Holds json t data ∧ Filled data text

def Belongs (t : Clusters) (dn : Dn) (e : Entry) : Prop :=
  ∃ o text sid, dn.path = (s.objectDn o).path ∧ site.Settled json t text ∧
    Sid.parse text = some sid ∧ Carries e (o.sid sid)

/-- The root record is settled from the start, and the domain's entries follow it. -/
structure Inv (t : Clusters) : Prop where
  root : ∀ v, entryAt t s.cluster site.configId site.rootSlot.dn = some v →
    ∃ text, site.Settled json t text
  objects : ∀ dn v, entryAt t s.cluster site.domainId dn = some v →
    ∃ e, v = .entry e ∧ site.Belongs json t dn e

def Persists (s : Settings) (t u : Clusters) : Prop :=
  ∀ pid dn v, entryAt t s.cluster pid dn = some v → entryAt u s.cluster pid dn = some v

/-- What one member's step may do, which is what the others rely on. -/
def Allowed (t u : Clusters) : Prop := site.Inv json t → site.Inv json u ∧ Persists s t u

instance allowed_refl : Std.Refl (site.Allowed json) where
  refl _ hinv := ⟨hinv, fun _ _ _ h => h⟩

instance allowed_trans : IsTrans Clusters (site.Allowed json) where
  trans t u v htu huv hinv := by
    obtain ⟨hinvu, hpu⟩ := htu hinv
    obtain ⟨hinvv, hpv⟩ := huv hinvu
    exact ⟨hinvv, fun pid dn x hx => hpv pid dn x (hpu pid dn x hx)⟩

abbrev Keeps {ε α : Type} (t : Clusters) (P : Clusters → α → Prop) (p : Calls ε α) : Prop :=
  Safe (Serves Free) (site.Allowed json) (WhenOk P) p.run t

structure Fits (t : Clusters) (pid : PartitionId) (dn : Dn) (e : Entry) : Prop where
  root : site.rootSlot.At s.cluster pid dn → ∃ data text, data.id = site.domainId ∧
    recordData json site.rootSlot.dn e = .ok data ∧ Filled data text
  object : pid = site.domainId → site.Belongs json t dn e

variable {json site} {t u : Clusters} {pid : PartitionId} {dn : Dn} {e : Entry} {spec : IndexSpec}
  {text text' : Str}

theorem Settled.unique (h : site.Settled json t text) (h' : site.Settled json t text') :
    text = text' := by
  obtain ⟨data, hdata, hfilled⟩ := h
  obtain ⟨data', hdata', hfilled'⟩ := h'
  obtain rfl := hdata.unique hdata'
  exact Option.some.inj (hfilled.domainSid.symm.trans hfilled'.domainSid)

theorem Persists.settled (h : Persists s t u) (hs : site.Settled json t text) :
    site.Settled json u text := by
  obtain ⟨data, ⟨hid, entry, hentry, hdata⟩, hfilled⟩ := hs
  exact ⟨data, ⟨hid, entry, h _ _ _ hentry, hdata⟩, hfilled⟩

theorem Persists.belongs (h : Persists s t u) (hb : site.Belongs json t dn e) :
    site.Belongs json u dn e := by
  obtain ⟨o, text, sid, hdn, hsettled, hrest⟩ := hb
  exact ⟨o, text, sid, hdn, h.settled hsettled, hrest⟩

theorem Persists.present (h : Persists s t u) (ht : entryAt t s.cluster pid dn ≠ none) :
    entryAt u s.cluster pid dn ≠ none := by
  obtain ⟨v, hv⟩ := Option.ne_none_iff_exists'.mp ht
  rw [h _ _ v hv]
  exact Option.some_ne_none v

theorem allowed_stores (hfits : site.Fits json t pid dn e)
    (hnone : entryAt t s.cluster pid dn = none) (hst : Stores s.cluster pid dn e t u) :
    site.Allowed json t u := by
  intro hinv
  have hpersists : Persists s t u := by
    intro pid' dn' v hv
    rw [hst, if_neg, hv]
    rintro ⟨-, hkey⟩
    rw [entryAt, hkey] at hv
    cases hnone.symm.trans hv
  refine ⟨⟨fun v hv => ?_, fun dn' v hv => ?_⟩, hpersists⟩
  · by_cases hat : site.rootSlot.At s.cluster pid dn
    · obtain ⟨data, text, hid, hdata, hfilled⟩ := hfits.root hat
      exact ⟨text, data, ⟨hid, e, (hst _ _ _).trans (if_pos hat), hdata⟩, hfilled⟩
    · obtain ⟨text, hsettled⟩ := hinv.root v (((hst _ _ _).trans (if_neg hat)).symm.trans hv)
      exact ⟨text, hpersists.settled hsettled⟩
  · rw [hst] at hv
    split at hv
    · next hat =>
      obtain ⟨hpid, hpath⟩ := Key.entryKey_inj.mp hat.2
      obtain ⟨o, text, sid, hdn, hrest⟩ := hfits.object hpid.symm
      cases hv
      exact ⟨e, rfl, hpersists.belongs ⟨o, text, sid, hpath.trans hdn, hrest⟩⟩
    · obtain ⟨e', rfl, hbelongs⟩ := hinv.objects dn' v hv
      exact ⟨e', rfl, hpersists.belongs hbelongs⟩

theorem keeps_createEntry (hlocate : Calls.locate reg dn = .ok (pid, s.cluster))
    (hinv : site.Inv json t) (hfits : ∀ u, Persists s t u → site.Fits json u pid dn e) :
    site.Keeps json t (fun u _ => entryAt u s.cluster pid dn ≠ none)
      (Calls.createEntry reg dn e spec) := by
  refine safe_createEntry hlocate (fun u v htu hnone hst => ?_) fun u v htu huv hfound => ?_
  · exact allowed_stores (hfits u (htu hinv).2) hnone hst
  · exact (huv (htu hinv).1).2.present hfound

theorem keeps_createPartition {p : Partition} (hinv : site.Inv json t)
    (hp : p.id = site.domainId → ∃ text, Filled (.ofPartition p) text) :
    site.Keeps json t
      (fun u _ => entryAt u s.cluster site.configId (s.configBase.below p.id.str) ≠ none)
      (createPartition json reg s.configBase p) := by
  refine safe_ofExcept_bind fun dn hdn => safe_mapError ?_
  cases hdn.symm.trans (site.recordDn_configBase p.id)
  refine keeps_createEntry (site.locate_config _ (Dn.below_isWithin _ _)) hinv
    fun u _ => ⟨fun hat => ?_, fun h => absurd h ?_⟩
  · have hid : site.domainId = p.id :=
      (hat.id_eq site.worded_configBase.wf (site.recordDn_configBase p.id)).1
    obtain ⟨text, hfilled⟩ := hp hid.symm
    exact ⟨_, text, hid.symm, recordData_partitionToEntry json _ p, hfilled⟩
  · exact site.ne_domainId site.configId_str (by decide)

theorem keeps_createRecords {ps : List Partition} (hinv : site.Inv json t)
    (hps : ∀ p ∈ ps, p.id = site.domainId → ∃ text, Filled (.ofPartition p) text) :
    site.Keeps json t (fun u _ => ∀ p ∈ ps,
      entryAt u s.cluster site.configId (s.configBase.below p.id.str) ≠ none)
      (createRecords json reg s.configBase ps) := by
  induction ps generalizing t with
  | nil => exact safe_pure fun u _ => by simp
  | cons p ps ih =>
    rw [List.forall_mem_cons] at hps
    refine safe_bind_ok (safe_mapError (keeps_createPartition hinv hps.1)) ?_
    intro u made htu hmade
    refine safe_bind_ok (ih (htu hinv).1 hps.2) fun v names huv hnames => ?_
    refine safe_pure fun w hvw => List.forall_mem_cons.mpr ⟨?_, fun q hq => ?_⟩
    · exact ((trans_of _ huv hvw : site.Allowed json u w) (htu hinv).1).2.present hmade
    · exact (hvw (huv (htu hinv).1).1).2.present (hnames q hq)

theorem keeps_loadRegistry (hinv : site.Inv json t)
    (hroot : entryAt t s.cluster site.configId site.rootSlot.dn ≠ none) :
    site.Keeps json t (fun u registry => ∃ text p, site.Settled json u text ∧
      registry.get site.domainId = some p ∧ Filled (.ofPartition p) text)
      (loadRegistry json reg s.configBase) := by
  have hlocate := site.locate_config s.configBase (Dn.isWithin_self _)
  refine safe_bind_ok (safe_mapError (safe_scanSubtree (P := fun v entries =>
    ∃ u base, site.Allowed json t u ∧ site.Allowed json u v ∧
      (Calls.withBase (Key.entryKey site.configId s.configBase) base ((u s.cluster).scan fun k =>
        (Key.subtreePrefix site.configId s.configBase).isPrefixOf k)).mapM
          (Tree.readRow site.configId) = .ok entries) ?_)) ?_
  · intro pid ref hplace u v base entries htu huv hentries
    cases hplace.symm.trans hlocate
    exact ⟨u, base, htu, huv, hentries⟩
  · rintro v entries - ⟨u, base, htu, huv, hentries⟩
    refine safe_ofExcept fun registry hregistry w hvw => ?_
    obtain ⟨hinvu, htu⟩ := htu hinv
    have huw := ((trans_of _ huv hvw : site.Allowed json u w) hinvu).2
    obtain ⟨x, hx⟩ := Option.ne_none_iff_exists'.mp (htu.present hroot)
    obtain ⟨text, data, ⟨hid, e, hentry, hdata⟩, hfilled⟩ := hinvu.root x hx
    have hscan : (Key.entryKey site.configId site.rootSlot.dn, Value.entry e) ∈
        (u s.cluster).scan fun k =>
          (Key.subtreePrefix site.configId s.configBase).isPrefixOf k := by
      refine OrderedMap.mem_scan_iff.mpr ⟨hentry, List.isPrefixOf_iff_prefix.mpr ?_⟩
      refine (Tree.entryKey_of_isWithin (Dn.below_isWithin _ _) rfl).resolve_left fun hkey => ?_
      exact Dn.path_below_ne site.domainId.word _ (Key.entryKey_inj.mp hkey).2
    have hrow : (Key.entryKey site.configId site.rootSlot.dn, Value.entry e) ∈ Calls.withBase
        (Key.entryKey site.configId s.configBase) base ((u s.cluster).scan fun k =>
          (Key.subtreePrefix site.configId s.configBase).isPrefixOf k) := by
      cases base with
      | none => exact hscan
      | some v => exact List.mem_cons_of_mem _ hscan
    obtain ⟨p, hp, hget⟩ := get_of_registryOf hentries hregistry hrow hdata
    refine ⟨text, p, huw.settled ⟨data, ⟨hid, e, hentry, hdata⟩, hfilled⟩, ?_, ?_⟩
    · exact (show data.id = site.domainId from hid) ▸ hget
    · rw [PartitionData.toPartition_eq_ok hp]
      exact ⟨hfilled.domainSid, hfilled.netbiosName⟩

variable {fips : Ldap.Provider} {draws : Draws} {o : Object} {sid : Sid}

theorem keeps_settleRoot (hinv : site.Inv json t)
    (hroot : entryAt t s.cluster site.configId site.rootSlot.dn ≠ none) :
    site.Keeps json t (fun u settled => ∃ text, settled.1.domainSid = some text ∧
      site.Settled json u text) (settleRoot json fips reg s draws s.configBase) := by
  refine safe_bind_ok (safe_mapError (keeps_loadRegistry hinv hroot)) ?_
  rintro v registry htv ⟨text, p, hsettled, hget, hfilled⟩
  refine safe_ofExcept_bind fun pid hpid => safe_ofExcept_bind fun stored hstored =>
    safe_ofExcept_bind fun _ _ => safe_ofExcept_bind fun filled hfill => ?_
  simp only [parsed, Outcome.mapError_eq_ok, Outcome.require_eq_ok] at hpid hfill hstored
  obtain rfl : pid = site.domainId :=
    PartitionId.ext_str ((PartitionId.new_eq_ok hpid).trans site.domainId_str.symm)
  cases hstored.symm.trans hget
  cases hfill.symm.trans (fill_of_filled hfilled)
  rw [if_pos rfl]
  exact safe_pure fun w hvw => ⟨text, hfilled.domainSid, (hvw (htv hinv).1).2.settled hsettled⟩

theorem keeps_createNamed {name : Str} (hinv : site.Inv json t)
    (hsettled : site.Settled json t text) (hparse : Sid.parse text = some sid)
    (hcarries : Carries e (o.sid sid)) :
    site.Keeps json t (fun _ _ => True) (createNamed reg name (s.objectDn o) e) := by
  refine safe_bind_ok (safe_mapError (keeps_createEntry (site.locate_object o) hinv
    fun u htu => ⟨fun hat => ?_, fun _ => ?_⟩)) fun _ _ _ _ => safe_pure fun _ _ => trivial
  · exact absurd (Key.entryKey_inj.mp hat.2).1 (site.ne_domainId site.configId_str (by decide))
  · exact ⟨o, text, sid, rfl, htu.settled hsettled, hparse, hcarries⟩

theorem keeps_principalExists (name : Str) :
    site.Keeps json t (fun _ _ => True) (principalExists reg s name) :=
  safe_of_asks (Asks.bind_except (asks_lookupByIndex _ _ _ _).mapError fun _ => trivial)

theorem keeps_createKrbtgt (hinv : site.Inv json t) (hsettled : site.Settled json t text)
    (hparse : Sid.parse text = some sid) :
    site.Keeps json t (fun _ _ => True) (createKrbtgt fips reg s draws sid) := by
  refine safe_bind_ok (keeps_principalExists _) fun u found htu _ => ?_
  cases found with
  | true => exact safe_pure fun _ _ => trivial
  | false =>
    refine safe_ofExcept_bind fun e he => safe_ofExcept_bind fun dn hdn => ?_
    cases (Outcome.mapError_eq_ok.mp hdn).symm.trans site.krbtgtDn_eq
    exact keeps_createNamed (htu hinv).1 ((htu hinv).2.settled hsettled) hparse
      (carries_krbtgtEntry he)

theorem keeps_createAdmin (hinv : site.Inv json t) (hsettled : site.Settled json t text)
    (hparse : Sid.parse text = some sid) :
    site.Keeps json t (fun _ _ => True) (createAdmin fips reg s draws sid) := by
  refine safe_ofExcept_bind fun dn hdn => ?_
  cases (Outcome.mapError_eq_ok.mp hdn).symm.trans site.adminDn_eq
  refine safe_bind_ok (keeps_principalExists _) fun u found htu _ => ?_
  cases found with
  | true => exact safe_pure fun _ _ => trivial
  | false =>
    refine safe_bind_ok (safe_of_asks (asks_getEntry _ _).mapError) fun v present huv _ => ?_
    have htv := (trans_of _ htu huv : site.Allowed json t v) hinv
    cases present with
    | some _ => exact safe_pure fun _ _ => trivial
    | none =>
      refine safe_ofExcept_bind fun e he => ?_
      exact keeps_createNamed htv.1 (htv.2.settled hsettled) hparse (carries_adminEntry he)

theorem keeps_provision (hinv : site.Inv json t) :
    site.Keeps json t (fun u report => site.Settled json u report.domainSid)
      (provision json fips reg s draws) := by
  refine safe_ofExcept_bind fun _ _ => safe_ofExcept_bind fun configDn hconfigDn =>
    safe_ofExcept_bind fun forest _ => safe_ofExcept_bind fun config hconfig =>
    safe_ofExcept_bind fun schemaDn _ => safe_ofExcept_bind fun schema hschema =>
    safe_ofExcept_bind fun root hroot => safe_ofExcept_bind fun sidText _ => ?_
  simp only [parsed, Outcome.mapError_eq_ok] at hconfigDn hconfig hschema hroot
  obtain ⟨-, rfl⟩ := Settings.configDn_eq_ok hconfigDn site.worded
  obtain ⟨configId, hconfigId, hconfig⟩ := Outcome.bind_eq_ok.mp hconfig
  obtain ⟨schemaId, hschemaId, hschema⟩ := Outcome.bind_eq_ok.mp hschema
  obtain ⟨rootId, hrootId, hroot⟩ := Outcome.bind_eq_ok.mp hroot
  cases hconfig
  cases hschema
  cases hroot
  obtain rfl : rootId = site.domainId :=
    PartitionId.ext_str ((PartitionId.new_eq_ok hrootId).trans site.domainId_str.symm)
  refine safe_bind_ok (keeps_createRecords hinv fun p hp hid => ?_) fun u records htu hmade => ?_
  · simp only [List.mem_cons, List.not_mem_nil, or_false] at hp
    rcases hp with rfl | rfl | rfl
    · exact absurd hid (site.ne_domainId (PartitionId.new_eq_ok hconfigId) (by decide))
    · exact absurd hid (site.ne_domainId (PartitionId.new_eq_ok hschemaId) (by decide))
    · exact ⟨sidText, rfl, rfl⟩
  have hinvu := (htu hinv).1
  have hfound := hmade _ (List.mem_cons_of_mem _ (List.mem_cons_of_mem _ List.mem_cons_self))
  refine safe_bind_ok (keeps_settleRoot hinvu hfound) ?_
  rintro v settled huv ⟨text, htext, hsettled⟩
  have hinvv := (huv hinvu).1
  rw [htext]
  refine safe_ofExcept_bind fun sid hsid => ?_
  have hparse : Sid.parse text = some sid := Outcome.require_eq_ok.mp hsid
  refine safe_bind_ok (keeps_createNamed (o := .base) hinvv hsettled hparse ?_)
    fun w base hvw _ => ?_
  · rw [Carries, baseEntry, Entry.get_set, if_pos rfl]
    rfl
  have hw := hvw hinvv
  refine safe_bind_ok (keeps_createKrbtgt hw.1 (hw.2.settled hsettled) hparse) fun x _ hwx _ => ?_
  have hx := (trans_of _ hvw hwx : site.Allowed json v x) hinvv
  refine safe_bind_ok (keeps_createAdmin hx.1 (hx.2.settled hsettled) hparse) fun y _ hxy _ => ?_
  have hy := (trans_of _ (trans_of _ hvw hwx) hxy : site.Allowed json v y) hinvv
  exact safe_pure fun z hyz => (hyz hy.1).2.settled (hy.2.settled hsettled)

end Site

abbrev Members := Pool Clusters Request Request.Reply (Except ProvisionError Report)

/-- However the requests of any number of members interleave, fail or get lost in
a store that was empty, and whichever of them crash: what has been stored stays,
every entry has the SID that goes with the one root record, and so has every
report. -/
theorem provision_agrees (json : Json) (fips : Ldap.Provider) {s : Settings}
    {reg : PartitionRegistry} (hreg : s.registry = .ok reg) (hbase : s.baseDn.Worded)
    {z w : Members} {first later : List (Members × Move Request Request.Reply _)}
    (hfirst : Run (Pool.Step (Serves Free)) ⟨fun _ => .empty, []⟩ first z)
    (hlater : Run (Pool.Step (Serves Free)) z later w)
    (hstart : ∀ x p, (x, .start p) ∈ first ++ later →
      ∃ draws, p = (provision json fips reg s draws).run) :
    ∃ site : Site s reg, site.Inv json w.state ∧ Site.Persists s z.state w.state ∧
      (∀ report, .done (.ok report) ∈ w.progs → site.Settled json w.state report.domainSid) ∧
      ∀ report report', .done (.ok report) ∈ w.progs → .done (.ok report') ∈ w.progs →
        report.domainSid = report'.domainSid := by
  obtain ⟨site⟩ := exists_site hreg hbase
  have hsafe : ∀ x p, (x, Move.start p) ∈ first ++ later → site.Inv json x.state →
      Safe (Serves Free) (site.Allowed json)
        (WhenOk fun u report => site.Settled json u report.domainSid) p x.state := by
    intro x p hp hinv
    obtain ⟨draws, rfl⟩ := hstart x p hp
    exact Site.keeps_provision hinv
  have hkeeps : ∀ t u, site.Inv json t → site.Allowed json t u → site.Inv json u :=
    fun t u hinv htu => (htu hinv).1
  have hempty : Pool.Sound (Serves Free) (site.Allowed json)
      (fun _ => WhenOk fun u report => site.Settled json u report.domainSid)
      (⟨fun _ => .empty, []⟩ : Members) := nofun
  obtain ⟨-, hz, hsound⟩ := Pool.sound_of_run hkeeps hfirst ⟨nofun, nofun⟩ hempty
    fun x p hp => hsafe x p (List.mem_append_left _ hp)
  obtain ⟨hzw, hw, hsound⟩ := Pool.sound_of_run hkeeps hlater hz hsound
    fun x p hp => hsafe x p (List.mem_append_right _ hp)
  have hreport : ∀ report, .done (.ok report) ∈ w.progs →
      site.Settled json w.state report.domainSid := by
    intro report hdone
    obtain ⟨i, hi⟩ := List.mem_iff_getElem?.mp hdone
    exact hsound i _ hi w.state (refl_of _ _) report rfl
  exact ⟨site, hw, (hzw hz).2, hreport, fun report report' h h' =>
    (hreport report h).unique (hreport report' h')⟩

section Race

def loSettings : Settings where
  endpoint := "http://etcd:2379"
  partitionId := "lo"
  baseDn := ⟨[⟨[⟨"dc", "lo"⟩]⟩]⟩
  realm := "IRON.LO"
  netbiosName := "IRON"
  adminPassword := Str.toUtf8 "correct horse"

def loFips : Ldap.Provider where
  platform := { Kerberos.Platform.ideal with cipher := counting }
  derive password salt _ := .ok ((password ++ salt ++ List.replicate 32 0).take 32)
  fips := true

def loReg : PartitionRegistry := loSettings.registry.toOption.get (by decide)

/-- The records a run may write, with a root for each draw of a SID. -/
def loRecords (draws : List Nat) : Except ProvisionError (List Partition) := do
  let s := loSettings
  let forest ← parsed (ForestId.new s.partitionId)
  let configDn ← parsed s.configDn
  let config ← parsed (Partition.configuration s.configPartitionId forest configDn s.cluster)
  let schemaDn ← parsed (Dn.parse ("cn=" ++ "schema" ++ ',' :: configDn.display))
  let schema ← parsed (Partition.schema s.schemaPartitionId forest schemaDn s.cluster)
  let root ← parsed (Partition.domain s.partitionId forest s.baseDn s.cluster)
  let roots ← draws.mapM fun draw => do
    let sid ← (generateDomainSid loFips.platform.cipher draw).mapError .crypto
    return ((root.withRealm s.realm).withNetbiosName s.netbiosName).withDomainSid sid
  return config :: schema :: roots

def loJson : Json :=
  Json.unary.known (((loRecords [1, 11, 21]).toOption.getD []).map .ofPartition)

def loMember (n : Nat) : Prog Request Request.Reply (Except ProvisionError Report) :=
  (provision loJson loFips loReg loSettings
    ⟨n, n + 1, n + 2, n + 3, n + 4, n + 5, n + 6⟩).run

/-- The second run creates the records just before the first one and crashes, and
the first one goes on to its end. -/
def raced : Members :=
  Pool.served serveAll ⟨fun _ => .empty, [loMember 0, loMember 10]⟩
    ((List.replicate 4 [1, 0]).flatten ++ List.replicate 12 0)

def restarted : Members :=
  Pool.served serveAll ⟨raced.state, raced.progs ++ [loMember 20]⟩ (List.replicate 12 2)

def reportAt (x : Members) (i : Nat) : Option Report :=
  match x.progs[i]? with
  | some (.done (.ok report)) => some report
  | _ => none

theorem reportAt_eq_some {x : Members} {i : Nat} {report : Report}
    (h : reportAt x i = some report) : .done (.ok report) ∈ x.progs := by
  unfold reportAt at h
  split at h
  case h_1 hi =>
    cases h
    exact List.mem_of_getElem? hi
  case h_2 => cases h

theorem exists_run_loMember (x : Members) (n : Nat) (turns : List Nat) :
    ∃ steps, Run (Pool.Step (Serves Free)) x steps
        (Pool.served serveAll ⟨x.state, x.progs ++ [loMember n]⟩ turns) ∧
      ∀ y p, (y, .start p) ∈ steps → p = loMember n := by
  have hanswer : ∀ s q, Serves Free s q (serveAll s q).1 (serveAll s q).2 :=
    fun _ _ => .answered trivial
  obtain ⟨steps, hrun, hturns⟩ :=
    Pool.exists_run_served hanswer ⟨x.state, x.progs ++ [loMember n]⟩ turns
  refine ⟨_, .cons (.start (loMember n)) hrun, fun y p hmem => ?_⟩
  cases List.mem_cons.mp hmem with
  | inl h =>
    cases h
    rfl
  | inr h => exact absurd h (hturns y p)

theorem provision_agrees_lo : loSettings.registry = .ok loReg ∧
    ∃ (site : Site loSettings loReg) (report report' : Report),
      reportAt restarted 0 = some report ∧ reportAt restarted 2 = some report' ∧
        report.created.length = 3 ∧ report'.created = [] ∧
        Site.Persists loSettings raced.state restarted.state ∧
        site.Settled loJson restarted.state report.domainSid ∧
        report.domainSid = report'.domainSid := by
  have hreg : loSettings.registry = .ok loReg :=
    Outcome.toOption_eq_some.mp (Option.some_get _).symm
  have hbase : loSettings.baseDn.Worded :=
    List.forall_mem_singleton.mpr ⟨_, _, rfl, plainType_dc, PartitionId.word ⟨"lo", rfl⟩⟩
  obtain ⟨hfirst, hsecond⟩ : (reportAt restarted 0).any (fun r => r.created.length == 3) = true ∧
      (reportAt restarted 2).any (fun r => r.created.isEmpty) = true := by
    decide +kernel
  obtain ⟨report, hreport, hthree⟩ := (Option.any_eq_true _ _).mp hfirst
  obtain ⟨report', hreport', hnone⟩ := (Option.any_eq_true _ _).mp hsecond
  obtain ⟨alone, hrun₁, hstart₁⟩ := exists_run_loMember ⟨fun _ => .empty, []⟩ 0 []
  obtain ⟨race, hrun₂, hstart₂⟩ := exists_run_loMember ⟨fun _ => .empty, [loMember 0]⟩ 10
    ((List.replicate 4 [1, 0]).flatten ++ List.replicate 12 0)
  obtain ⟨again, hrun₃, hstart₃⟩ := exists_run_loMember raced 20 (List.replicate 12 2)
  have hstart : ∀ x p, (x, .start p) ∈ (alone ++ race) ++ again →
      ∃ draws, p = (provision loJson loFips loReg loSettings draws).run := by
    intro x p hp
    rw [List.mem_append, List.mem_append] at hp
    obtain (hp | hp) | hp := hp
    · exact ⟨_, hstart₁ x p hp⟩
    · exact ⟨_, hstart₂ x p hp⟩
    · exact ⟨_, hstart₃ x p hp⟩
  obtain ⟨site, -, hpersists, hsettled, hagree⟩ :=
    provision_agrees loJson loFips hreg hbase (hrun₁.append hrun₂) hrun₃ hstart
  exact ⟨hreg, site, report, report', hreport, hreport', beq_iff_eq.mp hthree,
    List.isEmpty_iff.mp hnone, hpersists, hsettled report (reportAt_eq_some hreport),
    hagree report report' (reportAt_eq_some hreport) (reportAt_eq_some hreport')⟩

end Race

end IronDirectory.Bootstrap
