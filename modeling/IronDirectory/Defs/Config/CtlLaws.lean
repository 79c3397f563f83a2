import IronDirectory.Defs.Config.Ctl

namespace IronDirectory.Config

open Base Crypto Naming Storage Prog

def Puts (json : Json) (config p : Partition) (s t : Clusters) : Prop :=
  ∃ dn, recordDn config.baseDn p.id = .ok dn ∧ dn.isWithin config.baseDn = true ∧
    Stores config.cluster config.id dn (partitionToEntry json p) s t

def Slot.In (slot : Slot) (config : Partition) : Prop :=
  ∃ dn, recordDn config.baseDn slot.id = .ok dn ∧ slot.At config.cluster config.id dn

variable {json : Json} {c : Cipher} {vars : Env} {s t : Clusters} {slot : Slot}
  {data : PartitionData} {config p : Partition} {answers : List (Sigma Request.Reply)}

namespace Puts

theorem holds (h : Puts json config p s t) (hw : config.baseDn.Wf) (hin : slot.In config)
    (hid : p.id = slot.id) : slot.Holds json t (.ofPartition p) := by
  obtain ⟨dn, hdn, -, hst⟩ := h
  obtain ⟨dn', hdn', hat⟩ := hin
  rw [← hid, hdn] at hdn'
  cases hdn'
  exact Slot.holds_of_stores hat hw hdn hst

theorem holds_iff (h : Puts json config p s t) (hw : config.baseDn.Wf)
    (hother : slot.In config → p.id ≠ slot.id) :
    slot.Holds json t data ↔ slot.Holds json s data := by
  obtain ⟨dn, hdn, -, hst⟩ := h
  refine Slot.holds_iff_of_stores (fun hat => ?_) hst
  have hid := (hat.id_eq hw hdn).1
  exact hother ⟨dn, hid ▸ hdn, hat⟩ hid.symm

theorem get_of_loaded (h : Puts json config p s t) (hw : config.baseDn.Wf) {u : Clusters}
    {reg : PartitionRegistry} (hload : loaded json (.singleton config) config.baseDn u = .ok reg)
    (hholds : slot.Holds json u data) (hin : slot.In config) (hid : p.id = slot.id) :
    ∃ q, data.toPartition = .ok q ∧ reg.get slot.id = some q := by
  obtain ⟨dn, hdn, hwithin, -⟩ := h
  obtain ⟨dn', hdn', hat⟩ := hin
  rw [← hid, hdn] at hdn'
  cases hdn'
  have hne := ((recordDn_eq_ok hw).mp hdn).1
  exact Config.get_of_loaded hload hholds hat hwithin (by simpa [Dn.isEmpty] using hne)

end Puts

inductive Wrote (json : Json) (config : Partition) : List Partition → Clusters → Clusters → Prop
  | nil (s : Clusters) : Wrote json config [] s s
  | cons {p : Partition} {ps : List Partition} {s t u : Clusters} :
    Puts json config p s t → Wrote json config ps t u → Wrote json config (p :: ps) s u

namespace Wrote

variable {ps : List Partition}

theorem holds_iff (h : Wrote json config ps s t) (hw : config.baseDn.Wf)
    (hother : slot.In config → ∀ p ∈ ps, p.id ≠ slot.id) :
    slot.Holds json t data ↔ slot.Holds json s data := by
  induction h with
  | nil s => rfl
  | cons hput _ ih =>
    rw [ih fun hin => (List.forall_mem_cons.mp (hother hin)).2]
    exact hput.holds_iff hw fun hin => (List.forall_mem_cons.mp (hother hin)).1

theorem holds {pre post : List Partition} (h : Wrote json config (pre ++ p :: post) s t)
    (hw : config.baseDn.Wf) (hin : slot.In config) (hid : p.id = slot.id)
    (hlast : ∀ q ∈ post, q.id ≠ slot.id) : slot.Holds json t (.ofPartition p) := by
  induction pre generalizing s with
  | nil =>
    cases h with
    | cons hput hrest => exact (hrest.holds_iff hw fun _ => hlast).mpr (hput.holds hw hin hid)
  | cons q pre ih =>
    cases h with
    | cons _ hrest => exact ih hrest

theorem holds_or (h : Wrote json config ps s t) (hw : config.baseDn.Wf) (hin : slot.In config)
    (hholds : slot.Holds json s data) :
    slot.Holds json t data ∨ ∃ p ∈ ps, p.id = slot.id ∧ slot.Holds json t (.ofPartition p) := by
  induction h generalizing data with
  | nil s => exact .inl hholds
  | @cons p ps s t u hput _ ih =>
    by_cases hid : p.id = slot.id
    · cases ih (hput.holds hw hin hid) with
      | inl h => exact .inr ⟨p, List.mem_cons_self, hid, h⟩
      | inr h =>
        obtain ⟨q, hq, h⟩ := h
        exact .inr ⟨q, List.mem_cons_of_mem _ hq, h⟩
    · cases ih ((hput.holds_iff hw fun _ => hid).mpr hholds) with
      | inl h => exact .inl h
      | inr h =>
        obtain ⟨q, hq, h⟩ := h
        exact .inr ⟨q, List.mem_cons_of_mem _ hq, h⟩

end Wrote

theorem exec_parsed_bind_ok {α β : Type} {x : Except PartitionError α}
    {f : α → Calls CtlError β} {b : β} :
    Exec (Serves Free) s (parsed x >>= f).run answers t (.ok b) ↔
      ∃ a, x = .ok a ∧ Exec (Serves Free) s (f a).run answers t (.ok b) := by
  refine exec_ofExcept_bind_ok.trans (exists_congr fun a => and_congr_left fun _ => ?_)
  rw [Outcome.mapError_eq_ok]

theorem exec_putRecord_ok
    (h : Exec (Serves Free) s (putRecord json config p).run answers t (.ok ())) :
    Puts json config p s t ∧ readsAnswered answers = true := by
  obtain ⟨dn, pid, ref, hdn, hlocate, hst, hanswered⟩ :=
    exec_putPartition_ok (exec_mapError_ok.mp h)
  obtain ⟨rfl, rfl, hin⟩ := locate_singleton hlocate
  exact ⟨⟨dn, hdn, hin, hst⟩, hanswered⟩

theorem exec_putRecord {r : Except CtlError Unit}
    (h : Exec (Serves Free) s (putRecord json config p).run answers t r) :
    t = s ∨ Puts json config p s t := by
  obtain ⟨_, -, h⟩ := exec_mapError h
  cases exec_bind_except h with
  | inl h =>
    obtain ⟨_, -, hdn⟩ := h
    exact .inl (exec_ofExcept.mp hdn).2.1
  | inr h =>
    obtain ⟨_, _, dn, _, rfl, hdn, hput⟩ := h
    obtain ⟨rfl, rfl, hparse⟩ := exec_ofExcept.mp hdn
    obtain ⟨_, -, hput⟩ := exec_mapError hput
    refine (exec_putEntry hput).imp_right ?_
    rintro ⟨pid, ref, hlocate, hst⟩
    obtain ⟨rfl, rfl, hin⟩ := locate_singleton hlocate
    exact ⟨dn, hparse.symm, hin, hst⟩

theorem exec_putRecord_bind {α : Type} {k : Unit → Calls CtlError α} {r : Except CtlError α}
    (h : Exec (Serves Free) s (putRecord json config p >>= k).run answers t r) :
    (∃ ps, Wrote json config ps s t ∧ ps <+: [p]) ∨
      ∃ u rest, Puts json config p s u ∧ Exec (Serves Free) u (k ()).run rest t r := by
  cases exec_bind_except h with
  | inl h =>
    obtain ⟨_, -, hput⟩ := h
    cases exec_putRecord hput with
    | inl h => exact .inl ⟨[], h ▸ .nil t, List.nil_prefix⟩
    | inr h => exact .inl ⟨[p], .cons h (.nil t), List.prefix_refl _⟩
  | inr h =>
    obtain ⟨_, u, _, rest, -, hput, hrest⟩ := h
    exact .inr ⟨u, rest, (exec_putRecord_ok hput).1, hrest⟩

theorem exec_connect {r : Except StoreError Unit}
    (h : Exec (Serves Free) s (Calls.connect (.singleton config)).run answers t r) : t = s := by
  rw [Calls.connect, iter_singleton, List.forM_cons, List.forM_nil] at h
  cases exec_bind_except h with
  | inl h =>
    obtain ⟨_, -, hdial⟩ := h
    exact exec_dial hdial
  | inr h =>
    obtain ⟨_, _, _, _, rfl, hdial, hdone⟩ := h
    obtain ⟨-, rfl, -⟩ := exec_done.mp hdone
    exact exec_dial hdial

theorem exec_connect_ok
    (h : Exec (Serves Free) s (Calls.connect (.singleton config)).run answers t (.ok ())) :
    t = s ∧ readsAnswered answers = true := by
  rw [Calls.connect, iter_singleton, List.forM_cons, List.forM_nil] at h
  obtain ⟨_, _, _, _, rfl, hdial, hdone⟩ := exec_bind_ok.mp h
  obtain ⟨rfl, rfl⟩ := exec_dial_ok.mp hdial
  obtain ⟨rfl, rfl, -⟩ := exec_done.mp hdone
  exact ⟨rfl, rfl⟩

def configOf (vars : Env) : Except CtlError Partition := do
  let endpoint ← requireEnv "IRON_CONFIG_FASTETCD_ENDPOINT" vars.fastetcdEndpoint
  let pid ← requireEnv "IRON_CONFIG_PARTITION_ID" vars.partitionId
  let baseDn ← requireEnv "IRON_CONFIG_BASE_DN" vars.baseDn
  let configDn ← (Dn.parse baseDn).mapError .partition
  let forest ← (ForestId.new pid).mapError .partition
  (Partition.configuration pid forest configDn (.plaintext [endpoint])).mapError .partition

theorem baseDn_configuration {id : Str} {forest : ForestId} {dn : Dn} {cluster : ClusterRef}
    (h : Partition.configuration id forest dn cluster = .ok config) : config.baseDn = dn := by
  obtain ⟨_, -, h⟩ := Outcome.bind_eq_ok.mp h
  cases h
  rfl

theorem configOf_wf (h : configOf vars = .ok config) : config.baseDn.Wf := by
  obtain ⟨_, -, h⟩ := Outcome.bind_eq_ok.mp h
  obtain ⟨_, -, h⟩ := Outcome.bind_eq_ok.mp h
  obtain ⟨_, -, h⟩ := Outcome.bind_eq_ok.mp h
  obtain ⟨dn, hdn, h⟩ := Outcome.bind_eq_ok.mp h
  obtain ⟨_, -, h⟩ := Outcome.bind_eq_ok.mp h
  rw [Outcome.mapError_eq_ok] at hdn h
  rw [baseDn_configuration h]
  exact Dn.parse_wf hdn

theorem exec_connectAndLoad_ok {reg : PartitionRegistry}
    (h : Exec (Serves Free) s (connectAndLoad json vars).run answers t (.ok (config, reg))) :
    t = s ∧ configOf vars = .ok config ∧
      loaded json (.singleton config) config.baseDn s = .ok reg ∧ readsAnswered answers = true := by
  obtain ⟨endpoint, hendpoint, h⟩ := exec_ofExcept_bind_ok.mp h
  obtain ⟨pid, hpid, h⟩ := exec_ofExcept_bind_ok.mp h
  obtain ⟨baseDn, hbase, h⟩ := exec_ofExcept_bind_ok.mp h
  obtain ⟨configDn, hdn, h⟩ := exec_parsed_bind_ok.mp h
  obtain ⟨forest, hforest, h⟩ := exec_parsed_bind_ok.mp h
  obtain ⟨config', hconfig, h⟩ := exec_parsed_bind_ok.mp h
  obtain ⟨_, _, _, _, rfl, hconnect, h'⟩ := exec_bind_ok.mp h
  obtain ⟨rfl, hanswered⟩ := exec_connect_ok (exec_mapError_ok.mp hconnect)
  obtain ⟨_, _, reg', _, rfl, hload, hdone⟩ := exec_bind_ok.mp h'
  obtain ⟨rfl, hreg, hanswered'⟩ := exec_loadRegistry_ok (exec_mapError_ok.mp hload)
  obtain ⟨rfl, rfl, hpair⟩ := exec_done.mp hdone
  cases hpair
  refine ⟨rfl, ?_, hreg, ?_⟩
  · simp only [configOf, hendpoint, hpid, hbase, hdn, hforest, hconfig, Except.mapError,
      Outcome.ok_bind]
  · rw [readsAnswered_append, readsAnswered_append, hanswered, hanswered']
    rfl

@[simp] theorem givenRoot_id (root : Partition) (realm url : Option Str) :
    (givenRoot root realm url).id = root.id := by
  cases realm with
  | none =>
    cases url with
    | none => rfl
    | some url => rfl
  | some realm =>
    cases url with
    | none => rfl
    | some url => rfl

structure InitForest where
  config : Partition
  schema : Partition
  root : Partition

def InitForest.parse (vars : Env) (args : List Str) : Except CtlError InitForest :=
  match args with
  | forestId :: configId :: configBaseDn :: rootId :: rootBaseDn :: rest => do
    let endpoint ← requireEnv "IRON_CONFIG_FASTETCD_ENDPOINT" vars.fastetcdEndpoint
    let forest ← (ForestId.new forestId).mapError .partition
    let configDn ← (Dn.parse configBaseDn).mapError .partition
    let rootDn ← (Dn.parse rootBaseDn).mapError .partition
    let config ← (Partition.configuration configId forest configDn
      (.plaintext [endpoint])).mapError .partition
    let schemaDn ← (Dn.parse ("cn=schema," ++ configBaseDn)).mapError .partition
    let schema ← (Partition.schema (forestId ++ "-schema") forest schemaDn
      (.plaintext [endpoint])).mapError .partition
    let root ← (Partition.domain rootId forest rootDn (.plaintext [endpoint])).mapError .partition
    return ⟨config, schema, givenRoot root rest.head? (env vars.rootLdapUrl)⟩
  | _ => .error (.usage [])

/-- The registry that `init-forest` goes by: none if the load failed. -/
def existing (json : Json) (config : Partition) (s : Clusters)
    (answers : List (Sigma Request.Reply)) : PartitionRegistry :=
  if readsAnswered answers then
    (loaded json (.singleton config) config.baseDn s).toOption.getD .new
  else .new

theorem existing_eq {load : List (Sigma Request.Reply)}
    {r : Except ConfigError PartitionRegistry} (hr : r.toOption =
      if readsAnswered load then (loaded json (.singleton config) config.baseDn s).toOption else none)
    (h : readsAnswered answers = readsAnswered load) :
    existing json config s answers = r.toOption.getD .new := by
  rw [existing, h, hr]
  cases readsAnswered load with
  | true => rfl
  | false => rfl

theorem exec_initForest_ok {draw : Nat} {args : List Str}
    (h : Exec (Serves Free) s (initForest json c vars draw args).run answers t (.ok ())) :
    ∃ f root, InitForest.parse vars args = .ok f ∧
      ensureDomainSid c draw
        (carryOver f.root ((existing json f.config s answers).get f.root.id)) = .ok root ∧
      Wrote json f.config [f.config, f.schema, root] s t := by
  unfold initForest at h
  split at h
  case h_2 =>
    obtain ⟨-, -, h⟩ := exec_ofExcept.mp h
    cases h
  case h_1 forestId configId configBaseDn rootId rootBaseDn rest =>
    obtain ⟨endpoint, hendpoint, h⟩ := exec_ofExcept_bind_ok.mp h
    obtain ⟨forest, hforest, h⟩ := exec_parsed_bind_ok.mp h
    obtain ⟨configDn, hdn, h⟩ := exec_parsed_bind_ok.mp h
    obtain ⟨rootDn, hrootDn, h⟩ := exec_parsed_bind_ok.mp h
    obtain ⟨config, hconfig, h⟩ := exec_parsed_bind_ok.mp h
    obtain ⟨_, _, _, _, rfl, hconnect, h₁⟩ := exec_bind_ok.mp h
    obtain ⟨rfl, hans₁⟩ := exec_connect_ok (exec_mapError_ok.mp hconnect)
    obtain ⟨_, _, reg, _, rfl, htry, h₂⟩ := exec_bind_ok.mp h₁
    obtain ⟨r, hload, rfl⟩ := exec_unwrapOr_ok.mp htry
    obtain ⟨rfl, hreg⟩ := exec_loadRegistry hload
    obtain ⟨_, u, _, _, rfl, hrun₁, h₃⟩ := exec_bind_ok.mp h₂
    obtain ⟨hput₁, hans₂⟩ := exec_putRecord_ok hrun₁
    obtain ⟨schemaDn, hschemaDn, h₄⟩ := exec_parsed_bind_ok.mp h₃
    obtain ⟨schema, hschema, h₅⟩ := exec_parsed_bind_ok.mp h₄
    obtain ⟨_, v, _, _, rfl, hrun₂, h₆⟩ := exec_bind_ok.mp h₅
    obtain ⟨hput₂, hans₃⟩ := exec_putRecord_ok hrun₂
    obtain ⟨root, hroot, h₇⟩ := exec_parsed_bind_ok.mp h₆
    obtain ⟨root', hsid, h₈⟩ := exec_ofExcept_bind_ok.mp h₇
    obtain ⟨hput₃, hans₄⟩ := exec_putRecord_ok h₈
    refine ⟨⟨config, schema, givenRoot root rest.head? (env vars.rootLdapUrl)⟩, root', ?_, ?_,
      .cons hput₁ (.cons hput₂ (.cons hput₃ (.nil _)))⟩
    · simp only [InitForest.parse, hendpoint, hforest, hdn, hrootDn, hconfig, hschemaDn, hschema,
        hroot, Except.mapError, Outcome.ok_bind]
      rfl
    · rw [Outcome.mapError_eq_ok] at hsid
      rw [existing_eq hreg (by simp [hans₁, hans₂, hans₃, hans₄]), givenRoot_id]
      exact hsid

theorem initForest_eq {draw : Nat} {args : List Str} {f : InitForest}
    (hf : InitForest.parse vars args = .ok f) :
    initForest json c vars draw args = (do
      Calls.mapError .store (Calls.connect (.singleton f.config))
      let existing ← Calls.unwrapOr .new (loadRegistry json (.singleton f.config) f.config.baseDn)
      putRecord json f.config f.config
      putRecord json f.config f.schema
      let root ← Calls.ofExcept ((ensureDomainSid c draw
        (carryOver f.root (existing.get f.root.id))).mapError .crypto)
      putRecord json f.config root) := by
  unfold InitForest.parse at hf
  split at hf
  case h_2 => cases hf
  case h_1 forestId configId configBaseDn rootId rootBaseDn rest =>
    obtain ⟨endpoint, hendpoint, hf⟩ := Outcome.bind_eq_ok.mp hf
    obtain ⟨forest, hforest, hf⟩ := Outcome.bind_eq_ok.mp hf
    obtain ⟨configDn, hdn, hf⟩ := Outcome.bind_eq_ok.mp hf
    obtain ⟨rootDn, hrootDn, hf⟩ := Outcome.bind_eq_ok.mp hf
    obtain ⟨config, hconfig, hf⟩ := Outcome.bind_eq_ok.mp hf
    obtain ⟨schemaDn, hschemaDn, hf⟩ := Outcome.bind_eq_ok.mp hf
    obtain ⟨schema, hschema, hf⟩ := Outcome.bind_eq_ok.mp hf
    obtain ⟨root, hroot, hf⟩ := Outcome.bind_eq_ok.mp hf
    cases hf
    simp only [initForest, parsed, hendpoint, hforest, hdn, hrootDn, hconfig, hschemaDn, hschema,
      hroot, ofExcept_ok_bind, givenRoot_id]

theorem exec_initForest {draw : Nat} {args : List Str} {f : InitForest} {r : Except CtlError Unit}
    (h : Exec (Serves Free) s (initForest json c vars draw args).run answers t r)
    (hf : InitForest.parse vars args = .ok f) (hreads : readsAnswered answers = true) :
    ∃ ps, Wrote json f.config ps s t ∧ (ps <+: [f.config, f.schema] ∨
      ∃ root, ensureDomainSid c draw
        (carryOver f.root ((existing json f.config s answers).get f.root.id)) = .ok root ∧
        ps = [f.config, f.schema, root]) := by
  rw [initForest_eq hf] at h
  cases exec_bind_except h with
  | inl h =>
    obtain ⟨_, -, hconnect⟩ := h
    obtain ⟨_, -, hconnect⟩ := exec_mapError hconnect
    exact ⟨[], exec_connect hconnect ▸ .nil t, .inl List.nil_prefix⟩
  | inr h =>
    obtain ⟨dial, _, _, _, rfl, hconnect, h₁⟩ := h
    obtain ⟨_, -, hconnect⟩ := exec_mapError hconnect
    obtain rfl := exec_connect hconnect
    obtain ⟨load, _, reg, rest, rfl, hload, h₂⟩ := exec_unwrapOr_bind h₁
    obtain ⟨rfl, hreg⟩ := exec_loadRegistry hload
    have hloaded : readsAnswered (dial ++ (load ++ rest)) = readsAnswered load := by
      simp only [readsAnswered_append, Bool.and_eq_true] at hreads
      simp [hreads]
    cases exec_putRecord_bind h₂ with
    | inl h =>
      obtain ⟨ps, hwrote, hps⟩ := h
      exact ⟨ps, hwrote, .inl (hps.trans (List.prefix_append [f.config] [f.schema]))⟩
    | inr h =>
      obtain ⟨u, _, hput₁, h₃⟩ := h
      cases exec_putRecord_bind h₃ with
      | inl h =>
        obtain ⟨ps, hwrote, hps⟩ := h
        exact ⟨f.config :: ps, .cons hput₁ hwrote, .inl (List.cons_prefix_cons.mpr ⟨rfl, hps⟩)⟩
      | inr h =>
        obtain ⟨v, _, hput₂, h⟩ := h
        cases hsid : ensureDomainSid c draw
            (carryOver f.root ((reg.toOption.getD .new).get f.root.id)) with
        | error e =>
          rw [hsid] at h
          obtain ⟨-, rfl, -⟩ := exec_done.mp h
          exact ⟨_, .cons hput₁ (.cons hput₂ (.nil _)), .inl (List.prefix_refl _)⟩
        | ok root =>
          rw [hsid] at h
          cases exec_putRecord h with
          | inl h =>
            exact ⟨_, h ▸ .cons hput₁ (.cons hput₂ (.nil _)), .inl (List.prefix_refl _)⟩
          | inr hput₃ =>
            refine ⟨_, .cons hput₁ (.cons hput₂ (.cons hput₃ (.nil _))), .inr ⟨root, ?_, rfl⟩⟩
            rw [existing_eq hreg hloaded]
            exact hsid

structure Unset (p : Partition) : Prop where
  superior : p.superior = none
  subordinates : p.subordinates = []
  kdcUrl : p.kdcUrl = none
  domainSid : p.domainSid = none
  netbiosName : p.netbiosName = none

structure InitForest.Given (vars : Env) (f : InitForest) : Prop where
  wf : f.config.baseDn.Wf
  config : Unset f.config ∧ f.config.ldapUrl = none
  schema : Unset f.schema ∧ f.schema.ldapUrl = none
  root : Unset f.root ∧ f.root.ldapUrl = env vars.rootLdapUrl

theorem unset_blank (id : PartitionId) (forest : ForestId) (dn : Dn) (kind : PartitionKind)
    (cluster : ClusterRef) : Unset (.blank id forest dn kind cluster) :=
  ⟨rfl, rfl, rfl, rfl, rfl⟩

theorem Unset.givenRoot {root : Partition} (h : Unset root) (hurl : root.ldapUrl = none)
    (realm url : Option Str) :
    Unset (givenRoot root realm url) ∧ (Config.givenRoot root realm url).ldapUrl = url := by
  obtain ⟨h₁, h₂, h₃, h₄, h₅⟩ := h
  cases realm with
  | none =>
    cases url with
    | none => exact ⟨⟨h₁, h₂, h₃, h₄, h₅⟩, hurl⟩
    | some url => exact ⟨⟨h₁, h₂, h₃, h₄, h₅⟩, rfl⟩
  | some realm =>
    cases url with
    | none => exact ⟨⟨h₁, h₂, h₃, h₄, h₅⟩, hurl⟩
    | some url => exact ⟨⟨h₁, h₂, h₃, h₄, h₅⟩, rfl⟩

theorem InitForest.given_of_parse {args : List Str} {f : InitForest}
    (h : InitForest.parse vars args = .ok f) : f.Given vars := by
  unfold InitForest.parse at h
  split at h
  case h_2 => cases h
  case h_1 forestId configId configBaseDn rootId rootBaseDn rest =>
    obtain ⟨endpoint, -, h⟩ := Outcome.bind_eq_ok.mp h
    obtain ⟨forest, -, h⟩ := Outcome.bind_eq_ok.mp h
    obtain ⟨configDn, hdn, h⟩ := Outcome.bind_eq_ok.mp h
    obtain ⟨rootDn, -, h⟩ := Outcome.bind_eq_ok.mp h
    obtain ⟨config, hconfig, h⟩ := Outcome.bind_eq_ok.mp h
    obtain ⟨schemaDn, -, h⟩ := Outcome.bind_eq_ok.mp h
    obtain ⟨schema, hschema, h⟩ := Outcome.bind_eq_ok.mp h
    obtain ⟨root, hroot, h⟩ := Outcome.bind_eq_ok.mp h
    rw [Outcome.mapError_eq_ok] at hdn hconfig hschema hroot
    obtain ⟨_, -, hconfig⟩ := Outcome.bind_eq_ok.mp hconfig
    obtain ⟨_, -, hschema⟩ := Outcome.bind_eq_ok.mp hschema
    obtain ⟨_, -, hroot⟩ := Outcome.bind_eq_ok.mp hroot
    cases hconfig
    cases hschema
    cases hroot
    cases h
    exact ⟨Dn.parse_wf hdn, ⟨unset_blank .., rfl⟩, ⟨unset_blank .., rfl⟩,
      Unset.givenRoot ⟨rfl, rfl, rfl, rfl, rfl⟩ rfl _ _⟩

theorem InitForest.Given.holds_unset {f : InitForest} {root : Partition} (hf : f.Given vars)
    (hwrote : Wrote json f.config [f.config, f.schema, root] s t) (hin : slot.In f.config)
    (hroot : root.id ≠ slot.id) (hid : f.config.id = slot.id ∨ f.schema.id = slot.id) :
    ∃ p, (Unset p ∧ p.ldapUrl = none) ∧ slot.Holds json t (.ofPartition p) := by
  by_cases hschema : f.schema.id = slot.id
  · have hlast : Wrote json f.config ([f.config] ++ f.schema :: [root]) s t := hwrote
    exact ⟨_, hf.schema, hlast.holds hf.wf hin hschema (by simpa using hroot)⟩
  · have hlast : Wrote json f.config ([] ++ f.config :: [f.schema, root]) s t := hwrote
    exact ⟨_, hf.config, hlast.holds hf.wf hin (hid.resolve_right hschema)
      (by simp [hschema, hroot])⟩

structure Rebuilt (root : Partition) (prior : Option Partition) (sid : Str) (root' : Partition) :
    Prop where
  id : root'.id = root.id
  ldapUrl : root'.ldapUrl = root.ldapUrl
  kdcUrl : root'.kdcUrl = none
  superior : root'.superior = none
  netbiosName : root'.netbiosName = none
  subordinates : root'.subordinates = (prior.map Partition.subordinates).getD []
  domainSid : root'.domainSid = some sid

theorem rebuilt_of_ensureDomainSid {draw : Nat} {root root' : Partition} {prior : Option Partition}
    (hroot : Unset root) (h : ensureDomainSid c draw (carryOver root prior) = .ok root') :
    ∃ sid, Rebuilt root prior sid root' ∧ (prior.bind Partition.domainSid = some sid ∨
      (prior.bind Partition.domainSid = none ∧ generateDomainSid c draw = .ok sid)) := by
  have hsid : (carryOver root prior).domainSid = prior.bind Partition.domainSid := by
    cases prior with
    | none => exact hroot.domainSid
    | some prior => rfl
  have hrebuilt : ∀ sid, Rebuilt root prior sid ((carryOver root prior).withDomainSid sid) := by
    intro sid
    cases prior with
    | none =>
      exact ⟨rfl, rfl, hroot.kdcUrl, hroot.superior, hroot.netbiosName, hroot.subordinates, rfl⟩
    | some prior => exact ⟨rfl, rfl, hroot.kdcUrl, hroot.superior, hroot.netbiosName, rfl, rfl⟩
  rw [ensureDomainSid, hsid] at h
  cases hprior : prior.bind Partition.domainSid with
  | some sid =>
    rw [hprior] at h hsid
    cases h
    refine ⟨sid, ?_, .inl rfl⟩
    have hsame : (carryOver root prior).withDomainSid sid = carryOver root prior := by
      rw [Partition.withDomainSid, ← hsid]
    exact hsame ▸ hrebuilt sid
  | none =>
    rw [hprior] at h
    obtain ⟨sid, hfresh, h⟩ := Outcome.bind_eq_ok.mp h
    cases h
    exact ⟨sid, hrebuilt sid, .inr ⟨rfl, hfresh⟩⟩

@[simp] theorem givenChild_id (child : Partition) (superior : PartitionId) (sid : Str)
    (realm url : Option Str) : (givenChild child superior sid realm url).id = child.id := by
  rw [givenChild, givenRoot_id]
  rfl

theorem id_domain {id : Str} {forest : ForestId} {dn : Dn} {cluster : ClusterRef}
    (h : Partition.domain id forest dn cluster = .ok p) : PartitionId.new id = .ok p.id := by
  obtain ⟨pid, hpid, h⟩ := Outcome.bind_eq_ok.mp h
  cases h
  exact hpid

theorem exec_createChild_ok {draw : Nat} {args : List Str}
    (h : Exec (Serves Free) s (createChild json c vars draw args).run answers t (.ok ())) :
    ∃ config reg parent child u, configOf vars = .ok config ∧
      loaded json (.singleton config) config.baseDn s = .ok reg ∧
      reg.get parent.id = some parent ∧ reg.get child.id = none ∧ Puts json config child s u ∧
      Puts json config { parent with subordinates := parent.subordinates ++ [child.id] } u t := by
  unfold createChild at h
  split at h
  case h_2 =>
    obtain ⟨-, -, h⟩ := exec_ofExcept.mp h
    cases h
  case h_1 parentId newId newBaseDn rest =>
    obtain ⟨_, _, ⟨config, reg⟩, _, rfl, hload, h₁⟩ := exec_bind_ok.mp h
    obtain ⟨rfl, hconfig, hreg, -⟩ := exec_connectAndLoad_ok hload
    obtain ⟨parentPid, -, h₂⟩ := exec_parsed_bind_ok.mp h₁
    obtain ⟨parent, hparent, h₃⟩ := exec_ofExcept_bind_ok.mp h₂
    obtain ⟨newPid, hnew, h₄⟩ := exec_parsed_bind_ok.mp h₃
    rw [Outcome.require_eq_ok] at hparent
    split at h₄
    · obtain ⟨-, -, h⟩ := exec_ofExcept.mp h₄
      cases h
    · next hfresh =>
      obtain ⟨newDn, -, h₅⟩ := exec_parsed_bind_ok.mp h₄
      obtain ⟨child, hchild, h₆⟩ := exec_parsed_bind_ok.mp h₅
      obtain ⟨sid, -, h₇⟩ := exec_ofExcept_bind_ok.mp h₆
      obtain ⟨_, u, _, _, rfl, hrun₁, hrun₂⟩ := exec_bind_ok.mp h₇
      obtain ⟨hput₁, -⟩ := exec_putRecord_ok hrun₁
      obtain ⟨hput₂, -⟩ := exec_putRecord_ok hrun₂
      have hid : newPid = child.id := Except.ok.inj (hnew.symm.trans (id_domain hchild))
      have hkey : parent.id = parentPid :=
        reg.keyed (parentPid, parent) (OrderedMap.mem_entries_iff.mpr hparent)
      rw [Option.not_isSome_iff_eq_none] at hfresh
      refine ⟨config, reg, parent, givenChild child parentPid sid rest.head? (env vars.ldapUrl), u,
        hconfig, hreg, hkey.symm ▸ hparent, ?_, hput₁, ?_⟩
      · rw [givenChild_id, ← hid]
        exact hfresh
      · rw [givenChild_id, ← hid]
        exact hput₂

end IronDirectory.Config
