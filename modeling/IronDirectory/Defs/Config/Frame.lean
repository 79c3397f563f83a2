import IronDirectory.Defs.Config.Permanence

/-! What a re-run of `init-forest` leaves of the three records it writes.  Each is
built anew, and only the root's subordinates and SID are carried over. -/

namespace IronDirectory.Config

open Base Crypto Naming Storage Prog

structure Kept (url : Option Str) (old new : PartitionData) : Prop where
  ldapUrl : url = none → new.ldapUrl = old.ldapUrl
  kdcUrl : new.kdcUrl = old.kdcUrl
  netbiosName : new.netbiosName = old.netbiosName
  superior : new.superior = old.superior
  subordinates : new.subordinates = old.subordinates
  domainSid : new.domainSid = old.domainSid

theorem Kept.refl (url : Option Str) (d : PartitionData) : Kept url d d :=
  ⟨fun _ => rfl, rfl, rfl, rfl, rfl, rfl⟩

structure Blank (d : PartitionData) : Prop where
  ldapUrl : d.ldapUrl = none
  kdcUrl : d.kdcUrl = none
  netbiosName : d.netbiosName = none
  superior : d.superior = none
  subordinates : d.subordinates = []
  domainSid : d.domainSid = none

/-- A root record that has nothing but what is given anew or carried over. -/
structure Restorable (url : Option Str) (readable : Bool) (fresh : Except CryptoError Str)
    (d : PartitionData) : Prop where
  ldapUrl : url = none → d.ldapUrl = none
  kdcUrl : d.kdcUrl = none
  netbiosName : d.netbiosName = none
  superior : d.superior = none
  carried : if readable then d.domainSid ≠ none
    else d.subordinates = [] ∧ ∃ sid, fresh = .ok sid ∧ d.domainSid = some sid

namespace InitForest

variable (json : Json) (c : Cipher) (vars : Env) (draw : Nat)

def Names (f : InitForest) (slot : Slot) : Prop :=
  slot.In f.config ∧ (f.root.id = slot.id ∨ f.config.id = slot.id ∨ f.schema.id = slot.id)

def urlOf (f : InitForest) (id : PartitionId) : Option Str :=
  if f.root.id = id then env vars.rootLdapUrl else none

def Framed (f : InitForest) (s t : Clusters) : Prop :=
  ∀ slot data, f.Names slot → slot.Holds json s data →
    ∃ data', slot.Holds json t data' ∧ Kept (f.urlOf vars slot.id) data data'

def Restores (f : InitForest) (s : Clusters) : Prop :=
  ∀ slot data, f.Names slot → slot.Holds json s data →
    if f.root.id = slot.id then
      Restorable (env vars.rootLdapUrl)
        (loaded json (.singleton f.config) f.config.baseDn s).isOk (generateDomainSid c draw) data
    else Blank data

end InitForest

variable {json : Json} {c : Cipher} {vars : Env} {draw : Nat} {s t : Clusters} {slot : Slot}
  {data : PartitionData} {f : InitForest} {args : List Str}
  {answers : List (Sigma Request.Reply)} {r : Except CtlError Unit}

theorem kept_iff_blank {p : Partition} (h : Unset p ∧ p.ldapUrl = none) :
    Kept none data (.ofPartition p) ↔ Blank data := by
  obtain ⟨h, hurl⟩ := h
  constructor
  · intro hk
    exact ⟨(hk.ldapUrl rfl).symm.trans hurl, hk.kdcUrl.symm.trans h.kdcUrl,
      hk.netbiosName.symm.trans h.netbiosName, hk.superior.symm.trans h.superior,
      hk.subordinates.symm.trans h.subordinates, hk.domainSid.symm.trans h.domainSid⟩
  · intro hb
    exact ⟨fun _ => hurl.trans hb.ldapUrl.symm, h.kdcUrl.trans hb.kdcUrl.symm,
      h.netbiosName.trans hb.netbiosName.symm, h.superior.trans hb.superior.symm,
      h.subordinates.trans hb.subordinates.symm, h.domainSid.trans hb.domainSid.symm⟩

theorem kept_iff_carried {root root' : Partition} {prior : Option Partition} {sid : Str}
    {url : Option Str} (hurl : root.ldapUrl = url) (h : Rebuilt root prior sid root') :
    Kept url data (.ofPartition root') ↔
      (url = none → data.ldapUrl = none) ∧ data.kdcUrl = none ∧ data.netbiosName = none ∧
        data.superior = none ∧
        (prior.map Partition.subordinates).getD [] = data.subordinates ∧
        some sid = data.domainSid := by
  have hurl' : root'.ldapUrl = url := h.ldapUrl.trans hurl
  constructor
  · intro hk
    refine ⟨fun hnone => (hk.ldapUrl hnone).symm.trans (hurl'.trans hnone),
      hk.kdcUrl.symm.trans h.kdcUrl, hk.netbiosName.symm.trans h.netbiosName,
      hk.superior.symm.trans h.superior, ?_, ?_⟩
    · exact h.subordinates.symm.trans hk.subordinates
    · exact h.domainSid.symm.trans hk.domainSid
  · rintro ⟨hnone, hkdc, hname, hsup, hsubs, hsid⟩
    exact ⟨fun hn => (hurl'.trans hn).trans (hnone hn).symm, h.kdcUrl.trans hkdc.symm,
      h.netbiosName.trans hname.symm, h.superior.trans hsup.symm, h.subordinates.trans hsubs,
      h.domainSid.trans hsid⟩

theorem kept_iff_restorable {root : Partition} {args : List Str}
    (hf : InitForest.parse vars args = .ok f) (hreads : readsAnswered answers = true)
    (hroot : ensureDomainSid c draw
      (carryOver f.root ((existing json f.config s answers).get f.root.id)) = .ok root)
    (hwrote : Wrote json f.config [f.config, f.schema, root] s t) (hin : slot.In f.config)
    (hid : f.root.id = slot.id) (hholds : slot.Holds json s data) :
    Kept (env vars.rootLdapUrl) data (.ofPartition root) ↔
      Restorable (env vars.rootLdapUrl)
        (loaded json (.singleton f.config) f.config.baseDn s).isOk
        (generateDomainSid c draw) data := by
  have hgiven := InitForest.given_of_parse hf
  obtain ⟨sid, hrebuilt, hcases⟩ := rebuilt_of_ensureDomainSid hgiven.root.1 hroot
  rw [kept_iff_carried hgiven.root.2 hrebuilt]
  cases hload : (loaded json (.singleton f.config) f.config.baseDn s).isOk with
  | true =>
    obtain ⟨q, hq, hget⟩ := existing_get hgiven.wf hwrote (hrebuilt.id.trans hid) hin hholds hreads
      hload
    rw [← hid] at hget
    rw [hget] at hcases ⊢
    have hdata := PartitionData.toPartition_eq_ok hq
    have hsubs : q.subordinates = data.subordinates := congrArg PartitionData.subordinates hdata
    have hqsid : q.domainSid = data.domainSid := congrArg PartitionData.domainSid hdata
    have hcarried : some sid = data.domainSid ↔ data.domainSid ≠ none := by
      rw [← hqsid]
      cases hcases with
      | inl h =>
        have hsome : q.domainSid = some sid := h
        simp [hsome]
      | inr h =>
        have hnone : q.domainSid = none := h.1
        simp [hnone]
    constructor
    · rintro ⟨hurl, hkdc, hname, hsup, -, hsid⟩
      exact ⟨hurl, hkdc, hname, hsup, by simpa using hcarried.mp hsid⟩
    · rintro ⟨hurl, hkdc, hname, hsup, hsid⟩
      exact ⟨hurl, hkdc, hname, hsup, hsubs, hcarried.mpr (by simpa using hsid)⟩
  | false =>
    rw [existing_get_none (by simp [hload])] at hcases ⊢
    have hfresh : generateDomainSid c draw = .ok sid := by
      cases hcases with
      | inl h => cases h
      | inr h => exact h.2
    constructor
    · rintro ⟨hurl, hkdc, hname, hsup, hsubs, hsid⟩
      exact ⟨hurl, hkdc, hname, hsup, hsubs.symm, sid, hfresh, hsid.symm⟩
    · rintro ⟨hurl, hkdc, hname, hsup, hsubs, sid', hfresh', hsid⟩
      cases hfresh.symm.trans hfresh'
      exact ⟨hurl, hkdc, hname, hsup, hsubs.symm, hsid.symm⟩

theorem kept_iff_of_completed {root : Partition} (hf : InitForest.parse vars args = .ok f)
    (hreads : readsAnswered answers = true)
    (hroot : ensureDomainSid c draw
      (carryOver f.root ((existing json f.config s answers).get f.root.id)) = .ok root)
    (hwrote : Wrote json f.config [f.config, f.schema, root] s t) (hnames : f.Names slot)
    (hholds : slot.Holds json s data) :
    (∃ data', slot.Holds json t data' ∧ Kept (f.urlOf vars slot.id) data data') ↔
      if f.root.id = slot.id then
        Restorable (env vars.rootLdapUrl)
          (loaded json (.singleton f.config) f.config.baseDn s).isOk (generateDomainSid c draw) data
      else Blank data := by
  have hgiven := InitForest.given_of_parse hf
  obtain ⟨_, hrebuilt, -⟩ := rebuilt_of_ensureDomainSid hgiven.root.1 hroot
  obtain ⟨hin, hids⟩ := hnames
  have hnow : ∀ p, slot.Holds json t (.ofPartition p) → ((∃ data', slot.Holds json t data' ∧
      Kept (f.urlOf vars slot.id) data data') ↔
        Kept (f.urlOf vars slot.id) data (.ofPartition p)) := by
    intro p hp
    constructor
    · rintro ⟨data', hdata', hkept⟩
      cases hp.unique hdata'
      exact hkept
    · intro hkept
      exact ⟨_, hp, hkept⟩
  by_cases hid : f.root.id = slot.id
  · have hlast : Wrote json f.config ([f.config, f.schema] ++ root :: []) s t := hwrote
    rw [hnow root (hlast.holds hgiven.wf hin (hrebuilt.id.trans hid) (by simp)), if_pos hid,
      InitForest.urlOf, if_pos hid]
    exact kept_iff_restorable hf hreads hroot hwrote hin hid hholds
  · have hother : root.id ≠ slot.id := fun h => hid (hrebuilt.id.symm.trans h)
    obtain ⟨p, hunset, hp⟩ := hgiven.holds_unset hwrote hin hother (hids.resolve_left hid)
    rw [hnow p hp, if_neg hid, InitForest.urlOf, if_neg hid]
    exact kept_iff_blank hunset

theorem kept_of_unfinished {ps : List Partition} (hgiven : f.Given vars)
    (hwrote : Wrote json f.config ps s t) (hps : ps <+: [f.config, f.schema])
    (hconfig : f.root.id ≠ f.config.id) (hschema : f.root.id ≠ f.schema.id)
    (hin : slot.In f.config) (hholds : slot.Holds json s data)
    (hblank : f.root.id ≠ slot.id → Blank data) :
    ∃ data', slot.Holds json t data' ∧ Kept (f.urlOf vars slot.id) data data' := by
  cases hwrote.holds_or hgiven.wf hin hholds with
  | inl h => exact ⟨data, h, .refl _ _⟩
  | inr h =>
    obtain ⟨p, hp, hid, hnow⟩ := h
    have hgave : f.root.id ≠ slot.id ∧ Unset p ∧ p.ldapUrl = none := by
      have hmem := hps.subset hp
      rw [List.mem_cons, List.mem_singleton] at hmem
      cases hmem with
      | inl h =>
        subst h
        exact ⟨hid ▸ hconfig, hgiven.config⟩
      | inr h =>
        subst h
        exact ⟨hid ▸ hschema, hgiven.schema⟩
    refine ⟨_, hnow, ?_⟩
    rw [InitForest.urlOf, if_neg hgave.1]
    exact (kept_iff_blank hgave.2).mpr (hblank hgave.1)

theorem restores_of_completed {draw' : Nat} (hf : InitForest.parse vars args = .ok f)
    (h : Exec (Serves Free) s (initForest json c vars draw args).run answers t (.ok ()))
    (hload : (loaded json (.singleton f.config) f.config.baseDn t).isOk = true) :
    f.Restores json c vars draw' t := by
  obtain ⟨f', root, hf', hroot, hwrote⟩ := exec_initForest_ok h
  cases hf.symm.trans hf'
  have hgiven := InitForest.given_of_parse hf
  obtain ⟨sid, hrebuilt, -⟩ := rebuilt_of_ensureDomainSid hgiven.root.1 hroot
  intro slot data hnames hholds
  obtain ⟨hin, hids⟩ := hnames
  split
  case isTrue hid =>
    have hlast : Wrote json f.config ([f.config, f.schema] ++ root :: []) s t := hwrote
    cases hholds.unique (hlast.holds hgiven.wf hin (hrebuilt.id.trans hid) (by simp))
    refine ⟨fun hurl => (hrebuilt.ldapUrl.trans hgiven.root.2).trans hurl, hrebuilt.kdcUrl,
      hrebuilt.netbiosName, hrebuilt.superior, ?_⟩
    rw [hload, if_pos rfl]
    exact Option.ne_none_iff_exists'.mpr ⟨sid, hrebuilt.domainSid⟩
  case isFalse hid =>
    have hother : root.id ≠ slot.id := fun h => hid (hrebuilt.id.symm.trans h)
    obtain ⟨p, hunset, hp⟩ := hgiven.holds_unset hwrote hin hother (hids.resolve_left hid)
    cases hholds.unique hp
    exact (kept_iff_blank hunset).mp (.refl _ _)

/-- A re-run that completes leaves the fields it is not given as they were if and
only if they are blank, but for the root's subordinates and SID.  One that ends
early, where no two of the three ids are the root's, drops nothing more. -/
theorem rerun_framed_iff (json : Json) (c : Cipher) (vars : Env) (draw : Nat)
    (hf : InitForest.parse vars args = .ok f) (hreads : readsAnswered answers = true)
    (h : Exec (Serves Free) s (main json c vars draw ("init-forest" :: args)).run answers t r) :
    (r = .ok () → (f.Framed json vars s t ↔ f.Restores json c vars draw s)) ∧
      (f.root.id ≠ f.config.id → f.root.id ≠ f.schema.id → f.Restores json c vars draw s →
        f.Framed json vars s t) := by
  have hrun : Exec (Serves Free) s (initForest json c vars draw args).run answers t r := h
  constructor
  · rintro rfl
    obtain ⟨f', root, hf', hroot, hwrote⟩ := exec_initForest_ok hrun
    cases hf.symm.trans hf'
    exact forall₂_congr fun slot data => forall₂_congr fun hnames hholds =>
      kept_iff_of_completed hf hreads hroot hwrote hnames hholds
  · intro hconfig hschema hrestores slot data hnames hholds
    obtain ⟨ps, hwrote, hps⟩ := exec_initForest hrun hf hreads
    cases hps with
    | inl hps =>
      refine kept_of_unfinished (InitForest.given_of_parse hf) hwrote hps hconfig hschema
        hnames.1 hholds fun hid => ?_
      exact (if_neg hid).mp (hrestores slot data hnames hholds)
    | inr hps =>
      obtain ⟨root, hroot, rfl⟩ := hps
      exact (kept_iff_of_completed hf hreads hroot hwrote hnames hholds).mpr
        (hrestores slot data hnames hholds)

section Samples

def loUrlSet : Clusters := loAfter 1 loFirst ["set-kdc-url", "root", "kdc"]

theorem loUrlSet_evaluated :
    (loCtl 3 loFirst (loArgs "root")).1.isOk = true ∧
    (loCtl 1 loFirst ["set-kdc-url", "root", "kdc"]).1.isOk = true ∧
    loRootSlot.read loJson loUrlSet = some (.ofPartition (loMade.withKdcUrl "kdc")) ∧
    (loCtl 1 loUrlSet (loArgs "root")).1.isOk = true := by
  decide +kernel

theorem loRootSlot_named : loForest.Names loRootSlot := ⟨⟨_, rfl, rfl, rfl⟩, .inl rfl⟩

theorem rerun_framed_at_once : ∃ made again t,
    Exec (Serves Free) (fun _ => .empty) (main loJson counting loVars 1 (loArgs "root")).run made
      loFirst (.ok ()) ∧
    Exec (Serves Free) loFirst (main loJson counting loVars 3 (loArgs "root")).run again t
      (.ok ()) ∧
    loRootSlot.Holds loJson loFirst (.ofPartition loMade) ∧
    loForest.Restores loJson counting loVars 3 loFirst ∧
    loForest.Framed loJson loVars loFirst t := by
  obtain ⟨hfirst, hload, hread, -⟩ := lo_evaluated
  obtain ⟨made, -, hmade⟩ := exists_loCtl _ _ _ hfirst
  obtain ⟨again, hreads, hagain⟩ := exists_loCtl _ _ _ loUrlSet_evaluated.1
  have hrestores : loForest.Restores loJson counting loVars 3 loFirst :=
    restores_of_completed loForest_parsed hmade hload
  exact ⟨made, again, _, hmade, hagain, Slot.holds_of_read hread rfl, hrestores,
    ((rerun_framed_iff loJson counting loVars 3 loForest_parsed hreads hagain).1 rfl).mpr
      hrestores⟩

/-- `init-forest`, `set-kdc-url` and `init-forest` again: the URL is gone. -/
theorem not_rerun_framed : ∃ first set again t,
    Exec (Serves Free) (fun _ => .empty) (main loJson counting loVars 1 (loArgs "root")).run first
      loFirst (.ok ()) ∧
    Exec (Serves Free) loFirst
      (main loJson counting loVars 1 ["set-kdc-url", "root", "kdc"]).run set loUrlSet (.ok ()) ∧
    Exec (Serves Free) loUrlSet (main loJson counting loVars 1 (loArgs "root")).run again t
      (.ok ()) ∧
    readsAnswered (first ++ set ++ again) = true ∧ ¬ loForest.Framed loJson loVars loUrlSet t := by
  obtain ⟨-, hurl, hread, hrerun⟩ := loUrlSet_evaluated
  have hholds : loRootSlot.Holds loJson loUrlSet (.ofPartition (loMade.withKdcUrl "kdc")) :=
    Slot.holds_of_read hread rfl
  obtain ⟨first, hreads₁, hfirst⟩ := exists_loCtl _ _ _ lo_evaluated.1
  obtain ⟨set, hreads₂, hset⟩ := exists_loCtl _ _ _ hurl
  obtain ⟨again, hreads₃, hagain⟩ := exists_loCtl _ _ _ hrerun
  refine ⟨first, set, again, _, hfirst, hset, hagain, ?_, fun hframed => ?_⟩
  · rw [readsAnswered_append, readsAnswered_append, hreads₁, hreads₂, hreads₃]
    rfl
  · obtain ⟨f, root, hf, hroot, hwrote⟩ := exec_initForest_ok
      (show Exec _ _ (initForest loJson counting loVars 1 (loArgs "root").tail).run _ _ _ from hagain)
    cases loForest_parsed.symm.trans hf
    have hkept := (kept_iff_of_completed loForest_parsed hreads₃ hroot hwrote loRootSlot_named
      hholds).mp (hframed _ _ loRootSlot_named hholds)
    rw [if_pos (show loForest.root.id = loRootSlot.id from rfl)] at hkept
    cases hkept.kdcUrl

end Samples

end IronDirectory.Config
