import IronDirectory.Defs.Config.CtlLaws

/-! What runs of `init-forest` and `create-child` leave of a record's domain SID
and of its list of subordinates.  `init-forest` forgets that its load failed, and
then writes the root record as if there had been none. -/

namespace IronDirectory.Config

open Base Crypto Naming Storage Prog

structure CtlRun where
  vars : Env
  draw : Nat
  args : List Str
  answers : List (Sigma Request.Reply)
  outcome : Except CtlError Unit
  after : Clusters

namespace CtlRun

def command (r : CtlRun) : Option Command := r.args.head?.bind Command.ofStr

def Step (json : Json) (c : Cipher) (s : Clusters) (r : CtlRun) (t : Clusters) : Prop :=
  Exec (Serves Free) s (main json c r.vars r.draw r.args).run r.answers t r.outcome ∧ t = r.after

end CtlRun

variable (json : Json) (c : Cipher)

def Slot.Keeps (slot : Slot) (s t : Clusters) : Prop :=
  ∀ data sid, slot.Holds json s data → data.domainSid = some sid →
    ∃ data', slot.Holds json t data' ∧ data'.domainSid = some sid ∧
      data.subordinates ⊆ data'.subordinates

/-- An `init-forest` that writes the record as its root has loaded the registry,
and one with another root does not write the record at all.  (Or chance has it
that the SID drawn anew is the one it replaces.) -/
def Slot.Spared (slot : Slot) (s : Clusters) (r : CtlRun) : Prop :=
  ∀ f data sid, r.command = some .initForest → InitForest.parse r.vars r.args.tail = .ok f →
    slot.In f.config → slot.Holds json s data → data.domainSid = some sid →
    if f.root.id = slot.id then
      (readsAnswered r.answers = true ∧
        (loaded json (.singleton f.config) f.config.baseDn s).isOk = true) ∨
      (data.subordinates = [] ∧ generateDomainSid c r.draw = .ok sid)
    else f.config.id ≠ slot.id ∧ f.schema.id ≠ slot.id

variable {json c} {s t : Clusters} {slot : Slot} {r : CtlRun}

theorem Slot.Keeps.of_createChild {vars : Env} {draw : Nat} {args : List Str}
    {answers : List (Sigma Request.Reply)}
    (h : Exec (Serves Free) s (createChild json c vars draw args).run answers t (.ok ())) :
    slot.Keeps json s t := by
  obtain ⟨config, reg, parent, child, u, hconfig, hload, hparent, hfresh, hput₁, hput₂⟩ :=
    exec_createChild_ok h
  have hw := configOf_wf hconfig
  intro data sid hholds hsid
  -- the child's record is new, so it is not this one
  have hchild : slot.In config → child.id ≠ slot.id := by
    intro hin hid
    obtain ⟨q, -, hq⟩ := hput₁.get_of_loaded hw hload hholds hin hid
    rw [← hid, hfresh] at hq
    cases hq
  have hmid : slot.Holds json u data := (hput₁.holds_iff hw hchild).mpr hholds
  by_cases hhere : slot.In config ∧ parent.id = slot.id
  · obtain ⟨hin, hid⟩ := hhere
    obtain ⟨q, hq, hget⟩ := hput₂.get_of_loaded hw hload hholds hin hid
    rw [← hid, hparent] at hget
    cases hget
    have hdata := PartitionData.toPartition_eq_ok hq
    refine ⟨_, hput₂.holds hw hin hid, ?_, ?_⟩
    · exact (congrArg PartitionData.domainSid hdata).trans hsid
    · have hsubs : parent.subordinates = data.subordinates :=
        congrArg PartitionData.subordinates hdata
      exact fun x hx => List.mem_append_left _ (hsubs ▸ hx)
  · refine ⟨data, (hput₂.holds_iff hw fun hin hid => hhere ⟨hin, hid⟩).mpr hmid, hsid, ?_⟩
    exact List.Subset.refl _

section InitForest

variable {vars : Env} {draw : Nat} {args : List Str} {answers : List (Sigma Request.Reply)}
  {f : InitForest} {data : PartitionData} {sid : Str}

theorem existing_get {root : Partition} (hw : f.config.baseDn.Wf)
    (hwrote : Wrote json f.config [f.config, f.schema, root] s t) (hrid : root.id = slot.id)
    (hin : slot.In f.config) (hholds : slot.Holds json s data)
    (hanswered : readsAnswered answers = true)
    (hload : (loaded json (.singleton f.config) f.config.baseDn s).isOk = true) :
    ∃ q, data.toPartition = .ok q ∧ (existing json f.config s answers).get slot.id = some q := by
  cases hreg : loaded json (.singleton f.config) f.config.baseDn s with
  | error e =>
    rw [hreg] at hload
    cases hload
  | ok reg =>
    rw [existing, hanswered, if_pos rfl, hreg]
    cases hwrote with
    | cons _ hrest =>
      cases hrest with
      | cons _ hrest =>
        cases hrest with
        | cons hput _ => exact hput.get_of_loaded hw hreg hholds hin hrid

theorem existing_get_none {id : PartitionId} (h : ¬ (readsAnswered answers = true ∧
    (loaded json (.singleton f.config) f.config.baseDn s).isOk = true)) :
    (existing json f.config s answers).get id = none := by
  rw [existing]
  split
  · next hanswered =>
    cases hreg : loaded json (.singleton f.config) f.config.baseDn s with
    | error e => rfl
    | ok reg =>
      rw [hreg] at h
      exact absurd ⟨hanswered, rfl⟩ h
  · rfl

theorem keeps_iff_of_initForest
    (h : Exec (Serves Free) s (initForest json c vars draw args).run answers t (.ok ()))
    (hf : InitForest.parse vars args = .ok f) (hin : slot.In f.config)
    (hholds : slot.Holds json s data) (hsid : data.domainSid = some sid) :
    (∃ data', slot.Holds json t data' ∧ data'.domainSid = some sid ∧
        data.subordinates ⊆ data'.subordinates) ↔
      if f.root.id = slot.id then
        (readsAnswered answers = true ∧
          (loaded json (.singleton f.config) f.config.baseDn s).isOk = true) ∨
        (data.subordinates = [] ∧ generateDomainSid c draw = .ok sid)
      else f.config.id ≠ slot.id ∧ f.schema.id ≠ slot.id := by
  obtain ⟨f', root, hf', hroot, hwrote⟩ := exec_initForest_ok h
  cases hf.symm.trans hf'
  have hgiven := InitForest.given_of_parse hf
  have hw := hgiven.wf
  obtain ⟨sid', hrebuilt, hcases⟩ := rebuilt_of_ensureDomainSid hgiven.root.1 hroot
  split
  case isTrue hid =>
    have hrid : root.id = slot.id := hrebuilt.id.trans hid
    have hlast : Wrote json f.config ([f.config, f.schema] ++ root :: []) s t := hwrote
    have hnow : slot.Holds json t (.ofPartition root) := hlast.holds hw hin hrid (by simp)
    constructor
    · rintro ⟨data', hdata', hsid', hsubs⟩
      cases hnow.unique hdata'
      by_cases hloaded : readsAnswered answers = true ∧
          (loaded json (.singleton f.config) f.config.baseDn s).isOk = true
      · exact .inl hloaded
      · rw [existing_get_none hloaded] at hrebuilt hcases
        have hnil : root.subordinates = [] := hrebuilt.subordinates
        refine .inr ⟨List.subset_nil.mp (hnil ▸ hsubs), ?_⟩
        cases hcases with
        | inl h => cases h
        | inr h =>
          have hsame : root.domainSid = some sid := hsid'
          rw [hrebuilt.domainSid] at hsame
          exact Option.some.inj hsame ▸ h.2
    · intro hcond
      refine ⟨_, hnow, ?_⟩
      by_cases hloaded : readsAnswered answers = true ∧
          (loaded json (.singleton f.config) f.config.baseDn s).isOk = true
      · obtain ⟨q, hq, hget⟩ := existing_get hw hwrote hrid hin hholds hloaded.1 hloaded.2
        rw [← hid] at hget
        rw [hget] at hrebuilt hcases
        have hdata := PartitionData.toPartition_eq_ok hq
        have hqsid : q.domainSid = some sid := (congrArg PartitionData.domainSid hdata).trans hsid
        have hqsubs : q.subordinates = data.subordinates :=
          congrArg PartitionData.subordinates hdata
        refine ⟨hrebuilt.domainSid.trans ?_, fun x hx => ?_⟩
        · cases hcases with
          | inl h => exact h.symm.trans hqsid
          | inr h => cases hqsid.symm.trans h.1
        · have hsubs : root.subordinates = q.subordinates := hrebuilt.subordinates
          change x ∈ root.subordinates
          rw [hsubs, hqsubs]
          exact hx
      · obtain ⟨hnil, hfresh⟩ := hcond.resolve_left hloaded
        rw [existing_get_none hloaded] at hcases
        refine ⟨hrebuilt.domainSid.trans ?_, hnil ▸ List.nil_subset _⟩
        cases hcases with
        | inl h => cases h
        | inr h => exact congrArg some (Except.ok.inj (h.2.symm.trans hfresh))
  case isFalse hid =>
    rw [← hrebuilt.id] at hid
    by_cases hother : f.config.id ≠ slot.id ∧ f.schema.id ≠ slot.id
    · refine iff_of_true ⟨data, (hwrote.holds_iff hw fun _ => ?_).mpr hholds, hsid,
        List.Subset.refl _⟩ hother
      simp [hother.1, hother.2, hid]
    · refine iff_of_false ?_ hother
      rw [not_and_or, not_not, not_not] at hother
      obtain ⟨p, ⟨hunset, -⟩, hnow⟩ := hgiven.holds_unset hwrote hin hid hother
      rintro ⟨data', hdata', hsid', -⟩
      cases hnow.unique hdata'
      cases hunset.domainSid.symm.trans hsid'

end InitForest

theorem exec_main {vars : Env} {draw : Nat} {args : List Str}
    {answers : List (Sigma Request.Reply)} {command : Command}
    (hcmd : args.head?.bind Command.ofStr = some command)
    (h : Exec (Serves Free) s (main json c vars draw args).run answers t (.ok ())) :
    Exec (Serves Free) s (runCommand json c vars draw args.tail command).run answers t (.ok ()) := by
  cases args with
  | nil => cases hcmd
  | cons cmd rest =>
    have hof : Command.ofStr cmd = some command := hcmd
    rw [main, hof] at h
    exact h

theorem Slot.keeps_iff_spared (hstep : CtlRun.Step json c s r t)
    (hcmd : r.command = some .initForest ∨ r.command = some .createChild)
    (hdone : r.outcome = .ok ()) : slot.Keeps json s t ↔ slot.Spared json c s r := by
  have hexec := hstep.1
  rw [hdone] at hexec
  cases hcmd with
  | inr hcmd =>
    refine iff_of_true (Slot.Keeps.of_createChild (exec_main hcmd hexec)) fun f _ _ h => ?_
    cases hcmd.symm.trans h
  | inl hcmd =>
    have hrun := exec_main hcmd hexec
    obtain ⟨f, root, hf, -, hwrote⟩ := exec_initForest_ok hrun
    constructor
    · intro hkeeps f' data sid _ hf' hin hholds hsid
      exact (keeps_iff_of_initForest hrun hf' hin hholds hsid).mp (hkeeps data sid hholds hsid)
    · intro hspared data sid hholds hsid
      by_cases hin : slot.In f.config
      · exact (keeps_iff_of_initForest hrun hf hin hholds hsid).mpr
          (hspared f data sid hcmd hf hin hholds hsid)
      · refine ⟨data, ?_, hsid, List.Subset.refl _⟩
        exact (hwrote.holds_iff (InitForest.given_of_parse hf).wf fun h => absurd h hin).mpr hholds

/-- In any sequence of runs, those that complete keep the SID and the
subordinates of a record exactly as far as the record is spared. -/
theorem domainSid_kept_iff (json : Json) (c : Cipher) (slot : Slot) {steps : List (Clusters × CtlRun)}
    (hrun : Run (CtlRun.Step json c) s steps t)
    (hcmds : ∀ x ∈ steps, x.2.command = some .initForest ∨ x.2.command = some .createChild) :
    (∀ x ∈ steps, x.2.outcome = .ok () → slot.Keeps json x.1 x.2.after) ↔
      ∀ x ∈ steps, x.2.outcome = .ok () → slot.Spared json c x.1 x.2 := by
  refine forall₂_congr fun x hx => forall_congr' fun hdone => ?_
  obtain ⟨u, hu⟩ := hrun.step_of_mem hx
  have hstep := hu
  rw [hu.2] at hstep
  exact Slot.keeps_iff_spared hstep (hcmds x hx) hdone

section Samples

def counting : Cipher :=
  { Cipher.ideal with randomBytes := fun draw n => .ok (List.replicate n (UInt8.ofNat draw)) }

def loVars : Env := ⟨some "e", some "config", some "cn=configuration,dc=lo", none, none, none⟩

def loArgs (root : Str) : List Str :=
  ["init-forest", "lo", "config", "cn=configuration,dc=lo", root, "dc=lo"]

def loConfigDn : Dn := ⟨[⟨[⟨"cn", "configuration"⟩]⟩, ⟨[⟨"dc", "lo"⟩]⟩]⟩

def loRootSlot : Slot where
  cluster := .plaintext ["e"]
  configId := ⟨"config", rfl⟩
  configDn := loConfigDn
  id := ⟨"root", rfl⟩
  dn := loConfigDn.below "root"
  wf := Dn.parse_wf (show Dn.parse "cn=configuration,dc=lo" = _ from rfl)
  named := rfl

def loRoot (sid : Str) (subordinates : List PartitionId) : Partition where
  id := ⟨"root", rfl⟩
  forest := ⟨"lo", rfl⟩
  baseDn := ⟨[⟨[⟨"dc", "lo"⟩]⟩]⟩
  kind := .domain
  realm := some "LO"
  cluster := .plaintext ["e"]
  superior := none
  subordinates := subordinates
  ldapUrl := none
  kdcUrl := none
  domainSid := some sid
  netbiosName := none

def loHeld (json : Json) : Clusters := fun _ =>
  OrderedMap.empty.insert (Key.entryKey loRootSlot.configId loRootSlot.dn)
    (.entry (partitionToEntry json (loRoot "S-1-5-21-1-2-3" [⟨"emea", rfl⟩])))

theorem loHeld_holds (json : Json) : loRootSlot.Holds json (loHeld json)
    (.ofPartition (loRoot "S-1-5-21-1-2-3" [⟨"emea", rfl⟩])) :=
  ⟨rfl, _, (OrderedMap.find?_insert ..).trans (if_pos rfl), recordData_partitionToEntry json _ _⟩

def noScan (s : Clusters) : Store where
  registry := .new
  clusters ref := ⟨s ref, fun k =>
    if k = Key.subtreePrefix ⟨"config", rfl⟩ loConfigDn then some "unavailable" else none,
    fun _ => none⟩

def onStore (json : Json) (vars : Env) (draw : Nat) (args : List Str) (s : Store) : CtlRun where
  vars := vars
  draw := draw
  args := args
  answers := (main json counting vars draw args).run.replies Store.answer s
  outcome := ((main json counting vars draw args).run.eval Store.answer s).1
  after := ((main json counting vars draw args).run.eval Store.answer s).2.contents

theorem step_onStore (json : Json) (vars : Env) (draw : Nat) (args : List Str) (s : Store) :
    CtlRun.Step json counting s.contents (onStore json vars draw args s)
      (onStore json vars draw args s).after :=
  ⟨Store.exec_eval s _, rfl⟩

def loRun : CtlRun := onStore Json.unary loVars 1 (loArgs "root") (noScan (loHeld Json.unary))

theorem step_loRun : CtlRun.Step Json.unary counting (loHeld Json.unary) loRun loRun.after :=
  step_onStore Json.unary loVars 1 (loArgs "root") (noScan (loHeld Json.unary))

theorem eq_ok_of_isOk {x : Except CtlError Unit} (h : x.isOk = true) : x = .ok () := by
  cases x with
  | error e => cases h
  | ok u => rfl

theorem loRun_completes : loRun.outcome = .ok () := eq_ok_of_isOk (by decide +kernel)

theorem loRun_refused : readsAnswered loRun.answers = false := by decide +kernel

def loForest : InitForest where
  config := .blank loRootSlot.configId (loRoot [] []).forest loConfigDn .configuration
    (.plaintext ["e"])
  schema := .blank ⟨"lo-schema", rfl⟩ (loRoot [] []).forest
    ⟨⟨[⟨"cn", "schema"⟩]⟩ :: loConfigDn.rdns⟩ .schema (.plaintext ["e"])
  root := { loRoot [] [] with domainSid := none }

def loMade : Partition := loRoot "S-1-5-21-16843009-16843009-16843009" []

def loParent : Partition := { loMade with subordinates := [⟨"emea", rfl⟩] }

def loChild : Partition :=
  { loRoot "S-1-5-21-33686018-33686018-33686018" [] with
    id := ⟨"emea", rfl⟩
    baseDn := ⟨⟨[⟨"dc", "emea"⟩]⟩ :: loMade.baseDn.rdns⟩
    realm := some "EMEA.LO"
    superior := some ⟨"root", rfl⟩ }

def loOther : Partition :=
  { loRoot "S-1-5-21-67372036-67372036-67372036" [] with id := ⟨"other", rfl⟩ }

def loJson : Json :=
  Json.unary.known ([loForest.config, loForest.schema, loMade, loParent, loChild, loOther,
    loMade.withKdcUrl "kdc"].map .ofPartition)

def loCtl (draw : Nat) (s : Clusters) (args : List Str) : Except CtlError Unit × Clusters :=
  (main loJson counting loVars draw args).run.eval serveAll s

def loAfter (draw : Nat) (s : Clusters) (args : List Str) : Clusters := (loCtl draw s args).2

theorem exists_loCtl (draw : Nat) (s : Clusters) (args : List Str)
    (h : (loCtl draw s args).1.isOk = true) :
    ∃ answers, readsAnswered answers = true ∧ Exec (Serves Free) s
      (main loJson counting loVars draw args).run answers (loAfter draw s args) (.ok ()) := by
  rw [← eq_ok_of_isOk h]
  exact ⟨_, readsAnswered_serveAll _ s, exec_serveAll _ s⟩

theorem exists_loStep (draw : Nat) (s : Clusters) (args : List Str)
    (h : (loCtl draw s args).1.isOk = true) :
    ∃ r : CtlRun, CtlRun.Step loJson counting s r (loAfter draw s args) ∧ r.vars = loVars ∧
      r.args = args ∧ readsAnswered r.answers = true ∧ r.outcome = .ok () := by
  obtain ⟨answers, hreads, hexec⟩ := exists_loCtl draw s args h
  exact ⟨⟨loVars, draw, args, answers, _, _⟩, ⟨hexec, rfl⟩, rfl, rfl, hreads, rfl⟩

def loFirst : Clusters := loAfter 1 (fun _ => .empty) (loArgs "root")

def loGrown : Clusters := loAfter 2 loFirst ["create-child", "root", "emea", "dc=emea,dc=lo"]

def loAgain : Clusters := loAfter 3 loGrown (loArgs "root")

theorem loForest_parsed : InitForest.parse loVars (loArgs "root").tail = .ok loForest := rfl

theorem loArgs_other_ids : (InitForest.parse loVars (loArgs "other").tail).toOption.map
    (fun f => (f.config.id, f.schema.id, f.root.id)) =
      some (⟨"config", rfl⟩, ⟨"lo-schema", rfl⟩, ⟨"other", rfl⟩) := by
  decide +kernel

-- One evaluation for all the runs: each starts from what the one before it left.
theorem lo_evaluated :
    (loCtl 1 (fun _ => .empty) (loArgs "root")).1.isOk = true ∧
    (loaded loJson (.singleton loForest.config) loForest.config.baseDn loFirst).isOk = true ∧
    loRootSlot.read loJson loFirst = some (.ofPartition loMade) ∧
    (loCtl 2 loFirst ["create-child", "root", "emea", "dc=emea,dc=lo"]).1.isOk = true ∧
    (loaded loJson (.singleton loForest.config) loForest.config.baseDn loGrown).isOk = true ∧
    (loCtl 3 loGrown (loArgs "root")).1.isOk = true ∧
    (loCtl 4 loAgain (loArgs "other")).1.isOk = true ∧
    loRootSlot.read loJson (loAfter 4 loAgain (loArgs "other")) =
      some (.ofPartition loParent) := by
  decide +kernel

/-- A child is created, `init-forest` is run again and then for another root. -/
theorem domainSid_kept_rerun : ∃ steps t, Run (CtlRun.Step loJson counting) loFirst steps t ∧
    steps.map (fun x => x.2.command) = [some .createChild, some .initForest, some .initForest] ∧
    (∀ x ∈ steps, x.2.outcome = .ok ()) ∧
    loRootSlot.Holds loJson loFirst (.ofPartition loMade) ∧
    loRootSlot.Holds loJson t (.ofPartition loParent) ∧
    ∀ x ∈ steps, x.2.outcome = .ok () → loRootSlot.Keeps loJson x.1 x.2.after := by
  obtain ⟨-, -, hfirst, hgrown, hload, hagain, hother, hlast⟩ := lo_evaluated
  obtain ⟨r₁, hstep₁, -, hargs₁, -, hout₁⟩ := exists_loStep _ _ _ hgrown
  obtain ⟨r₂, hstep₂, hvars₂, hargs₂, hreads₂, hout₂⟩ := exists_loStep _ _ _ hagain
  obtain ⟨r₃, hstep₃, hvars₃, hargs₃, -, hout₃⟩ := exists_loStep _ _ _ hother
  have hcmd₁ : r₁.command = some .createChild := by
    rw [CtlRun.command, hargs₁]
    rfl
  have hcmd₂ : r₂.command = some .initForest := by
    rw [CtlRun.command, hargs₂]
    rfl
  have hcmd₃ : r₃.command = some .initForest := by
    rw [CtlRun.command, hargs₃]
    rfl
  have hrun := Run.cons hstep₁ (.cons hstep₂ (.cons hstep₃ (.nil _)))
  refine ⟨_, _, hrun, by simp [hcmd₁, hcmd₂, hcmd₃], ?_, Slot.holds_of_read hfirst rfl,
    Slot.holds_of_read hlast rfl, (domainSid_kept_iff loJson counting loRootSlot hrun ?_).mpr ?_⟩
  · simp [hout₁, hout₂, hout₃]
  · simp [hcmd₁, hcmd₂, hcmd₃]
  · simp only [List.forall_mem_cons, List.not_mem_nil, false_implies, implies_true, and_true]
    refine ⟨?_, ?_, ?_⟩
    · intro _ f _ _ hcmd
      cases hcmd₁.symm.trans hcmd
    · intro _ f data sid _ hf _ _ _
      rw [hvars₂, hargs₂] at hf
      cases loForest_parsed.symm.trans hf
      rw [if_pos (show loForest.root.id = loRootSlot.id from rfl)]
      exact .inl ⟨hreads₂, hload⟩
    · intro _ f data sid _ hf _ _ _
      have hids := loArgs_other_ids
      rw [hvars₃, hargs₃] at hf
      rw [hf] at hids
      obtain ⟨hconfig, hrest⟩ := Prod.mk.inj (Option.some.inj hids)
      obtain ⟨hschema, hroot⟩ := Prod.mk.inj hrest
      rw [hconfig, hschema, hroot, if_neg (by decide)]
      decide

/-- An `init-forest` that cannot read the registry completes, gives the root
domain another SID and drops its subordinate. -/
theorem not_domainSid_kept : ∃ steps t, Run (CtlRun.Step Json.unary counting)
    (loHeld Json.unary) steps t ∧
      (∀ x ∈ steps, x.2.command = some .initForest ∧ x.2.outcome = .ok ()) ∧
      ¬ ∀ x ∈ steps, loRootSlot.Keeps Json.unary x.1 x.2.after := by
  refine ⟨_, _, .cons step_loRun (.nil _), ?_, ?_⟩
  · rw [List.forall_mem_singleton]
    exact ⟨rfl, loRun_completes⟩
  · rw [List.forall_mem_singleton]
    intro hkeeps
    have hexec := step_loRun.1
    rw [loRun_completes] at hexec
    have hspared := (keeps_iff_of_initForest (exec_main rfl hexec) loForest_parsed ⟨_, rfl, rfl, rfl⟩
      (loHeld_holds _) rfl).mp (hkeeps _ _ (loHeld_holds _) rfl)
    rw [if_pos (show loForest.root.id = loRootSlot.id from rfl)] at hspared
    cases hspared with
    | inl h => cases loRun_refused.symm.trans h.1
    | inr h => cases h.1

end Samples

end IronDirectory.Config
