import IronDirectory.Defs.Crypto.Cipher
import IronDirectory.Defs.Naming.Builders
import IronDirectory.Defs.Naming.Sid
import IronDirectory.Defs.Storage.EntryLaws
import IronDirectory.Defs.Storage.ProgramLaws

namespace IronDirectory.Config

open Base Crypto Naming Storage Prog

structure PartitionData where
  id : PartitionId
  forest : ForestId
  baseDn : Str
  kind : PartitionKind
  realm : Option Str
  cluster : ClusterRef
  superior : Option PartitionId
  subordinates : List PartitionId
  ldapUrl : Option Str
  kdcUrl : Option Str
  domainSid : Option Str
  netbiosName : Option Str
  deriving DecidableEq

namespace PartitionData

def ofPartition (p : Partition) : PartitionData where
  id := p.id
  forest := p.forest
  baseDn := p.baseDn.display
  kind := p.kind
  realm := p.realm
  cluster := p.cluster
  superior := p.superior
  subordinates := p.subordinates
  ldapUrl := p.ldapUrl
  kdcUrl := p.kdcUrl
  domainSid := p.domainSid
  netbiosName := p.netbiosName

def toPartition (d : PartitionData) : Except PartitionError Partition := do
  let baseDn ← Dn.parse d.baseDn
  return {
    id := d.id
    forest := d.forest
    baseDn := baseDn
    kind := d.kind
    realm := d.realm
    cluster := d.cluster
    superior := d.superior
    subordinates := d.subordinates
    ldapUrl := d.ldapUrl
    kdcUrl := d.kdcUrl
    domainSid := d.domainSid
    netbiosName := d.netbiosName }

end PartitionData

/-- `serde_json` at the type of partitions, with the text it gives an error of
the DN parser. -/
structure Json where
  toString : PartitionData → Str
  fromStr : Str → Except Str PartitionData
  custom : PartitionError → Str
  fromStr_toString : ∀ d, fromStr (toString d) = .ok d

section Unary

instance encodableChar : Encodable Char :=
  Encodable.ofLeftInverse Char.toNat Char.ofNat Char.ofNat_toNat

instance encodablePartitionId : Encodable PartitionId :=
  Encodable.ofLeftInjection PartitionId.str (fun s => (PartitionId.new s).toOption) fun p => by
    simp [PartitionId.new, p.valid]

instance encodableForestId : Encodable ForestId :=
  Encodable.ofLeftInjection ForestId.str (fun s => (ForestId.new s).toOption) fun f => by
    simp [ForestId.new, f.valid]

deriving instance Encodable for PartitionKind, TlsRef, ClusterRef, PartitionData

/-- The code of a partition in unary, in place of its JSON text. -/
def Json.unary : Json where
  toString d := List.replicate (Encodable.encode d) 'a'
  fromStr s :=
    match (Encodable.decode s.length : Option PartitionData) with
    | some d => .ok d
    | none => .error "out of range"
  custom _ := "invalid DN"
  fromStr_toString d := by simp only [List.length_replicate, Encodable.encodek]

def Json.known (json : Json) (ds : List PartitionData) : Json where
  toString d :=
    if d ∈ ds then 'k' :: List.replicate (ds.idxOf d) 'a' else 'o' :: json.toString d
  fromStr
    | 'k' :: s =>
      match ds[s.length]? with
      | some d => .ok d
      | none => .error "out of range"
    | 'o' :: s => json.fromStr s
    | _ => .error "out of range"
  custom := json.custom
  fromStr_toString d := by
    by_cases h : d ∈ ds
    · simp [h, List.idxOf_lt_length_iff.mpr h]
    · simp [h, json.fromStr_toString]

end Unary

inductive ConfigError
  | store (e : StoreError)
  | partition (e : PartitionError)
  | json (message : Str)
  | missingPartitionData (dn : Dn)
  | registry (e : PartitionError)

def attrPartitionData : Str := "partitiondata"

def indexSpec : IndexSpec := .new ["cn"]

def recordDn (configDn : Dn) (id : PartitionId) : Except ConfigError Dn :=
  (Dn.parse ("cn=" ++ id.str ++ ',' :: configDn.display)).mapError .partition

variable (json : Json)

def partitionToEntry (p : Partition) : Entry :=
  ((Entry.new.set "objectclass" ["top"]).set "cn" [p.id.str]).set attrPartitionData
    [json.toString (.ofPartition p)]

def recordData (dn : Dn) (entry : Entry) : Except ConfigError PartitionData := do
  let raw ← Outcome.require ((entry.get attrPartitionData).bind List.head?)
    (.missingPartitionData dn)
  (json.fromStr raw).mapError .json

def entryToPartition (dn : Dn) (entry : Entry) : Except ConfigError Partition := do
  let data ← recordData json dn entry
  data.toPartition.mapError fun e => .json (json.custom e)

def isBareBase (configDn dn : Dn) (entry : Entry) : Bool :=
  decide (dn.Same configDn) && (entry.get attrPartitionData).isNone

def registryOf (configDn : Dn) (entries : List (Dn × Entry)) :
    Except ConfigError PartitionRegistry := do
  let records := entries.filter fun row => !isBareBase configDn row.1 row.2
  let partitions ← records.mapM fun row => entryToPartition json row.1 row.2
  (PartitionRegistry.fromPartitions partitions).mapError .registry

def loadRegistry (reg : PartitionRegistry) (configDn : Dn) :
    Calls ConfigError PartitionRegistry := do
  let entries ← Calls.mapError .store (Calls.scanSubtree reg configDn)
  Calls.ofExcept (registryOf json configDn entries)

def putPartition (reg : PartitionRegistry) (configDn : Dn) (p : Partition) :
    Calls ConfigError Unit := do
  let dn ← Calls.ofExcept (recordDn configDn p.id)
  Calls.mapError .store (Calls.putEntry reg dn (partitionToEntry json p) indexSpec)

def createPartition (reg : PartitionRegistry) (configDn : Dn) (p : Partition) :
    Calls ConfigError Bool := do
  let dn ← Calls.ofExcept (recordDn configDn p.id)
  Calls.mapError .store (Calls.createEntry reg dn (partitionToEntry json p) indexSpec)

def ofBe32 (bytes : Bytes) : UInt32 := UInt32.ofNat (Bytes.ofBe bytes)

def generateDomainSid (c : Cipher) (draw : Nat) : Except CryptoError Str := do
  c.newContext draw
  let bytes ← c.randomBytes draw 12
  return Sid.display (.new Sid.ntAuthority [21, ofBe32 (bytes.take 4),
    ofBe32 ((bytes.drop 4).take 4), ofBe32 ((bytes.drop 8).take 4)])

def loaded (reg : PartitionRegistry) (configDn : Dn) (s : Clusters) :
    Except ConfigError PartitionRegistry := do
  let entries ← ((storeOf reg s).scanSubtree configDn).mapError .store
  registryOf json configDn entries

theorem asks_loadRegistry (reg : PartitionRegistry) (configDn : Dn) :
    (loadRegistry json reg configDn).run.Asks fun q => q.isRead = true :=
  Asks.bind_except (asks_scanSubtree reg configDn).mapError fun _ => trivial

theorem eval_loadRegistry (reg : PartitionRegistry) (configDn : Dn) (s : Clusters) :
    (loadRegistry json reg configDn).run.eval Store.answer (storeOf reg s) =
      (loaded json reg configDn s, storeOf reg s) := by
  have hscan : (Calls.mapError ConfigError.store (Calls.scanSubtree reg configDn)).run.eval
      Store.answer (storeOf reg s) =
      (((storeOf reg s).scanSubtree configDn).mapError .store, storeOf reg s) := by
    have heval : (Calls.scanSubtree reg configDn).run.eval Store.answer (storeOf reg s) = _ :=
      Store.eval_scanSubtree (storeOf reg s) configDn
    refine (eval_mapError _ _ _ _).trans ?_
    rw [heval]
  rw [loadRegistry, eval_bind_except, hscan, loaded]
  cases (storeOf reg s).scanSubtree configDn with
  | error e => rfl
  | ok entries => rfl

section Exec

variable {json} {s t : Clusters} {answers : List (Sigma Request.Reply)} {reg : PartitionRegistry}
  {configDn : Dn}

theorem exec_loadRegistry {r : Except ConfigError PartitionRegistry}
    (h : Exec (Serves Free) s (loadRegistry json reg configDn).run answers t r) :
    t = s ∧ r.toOption =
      if readsAnswered answers then (loaded json reg configDn s).toOption else none := by
  obtain ⟨rfl, heval⟩ := exec_of_asks_isRead reg (asks_loadRegistry json reg configDn) h
  refine ⟨rfl, ?_⟩
  cases hanswered : readsAnswered answers with
  | true =>
    have h' := (heval hanswered).symm.trans (eval_loadRegistry json reg configDn t)
    rw [if_pos rfl, (Prod.mk.inj h').1]
  | false =>
    rw [if_neg (by decide)]
    cases r with
    | error e => rfl
    | ok loaded =>
      obtain ⟨_, _, entries, _, rfl, hscan, hrest⟩ := exec_bind_ok.mp h
      obtain ⟨rfl, -, -⟩ := exec_ofExcept.mp hrest
      rw [List.append_nil, exec_scanSubtree_ok (exec_mapError_ok.mp hscan)] at hanswered
      cases hanswered

theorem exec_loadRegistry_ok {r : PartitionRegistry}
    (h : Exec (Serves Free) s (loadRegistry json reg configDn).run answers t (.ok r)) :
    t = s ∧ loaded json reg configDn s = .ok r ∧ readsAnswered answers = true := by
  obtain ⟨rfl, hr⟩ := exec_loadRegistry h
  cases hanswered : readsAnswered answers with
  | false =>
    rw [hanswered] at hr
    cases hr
  | true =>
    rw [hanswered, if_pos rfl] at hr
    exact ⟨rfl, Outcome.toOption_eq_some.mp hr.symm, rfl⟩

theorem exec_putPartition_ok {p : Partition}
    (h : Exec (Serves Free) s (putPartition json reg configDn p).run answers t (.ok ())) :
    ∃ dn pid ref, recordDn configDn p.id = .ok dn ∧ Calls.locate reg dn = .ok (pid, ref) ∧
      Stores ref pid dn (partitionToEntry json p) s t ∧ readsAnswered answers = true := by
  obtain ⟨_, _, dn, _, rfl, hdn, hput⟩ := exec_bind_ok.mp h
  obtain ⟨rfl, rfl, hparse⟩ := exec_ofExcept.mp hdn
  obtain ⟨pid, ref, hlocate, hstores, hanswered⟩ := exec_putEntry_ok (exec_mapError_ok.mp hput)
  exact ⟨dn, pid, ref, hparse.symm, hlocate, hstores, hanswered⟩

end Exec

@[simp] theorem recordData_partitionToEntry (dn : Dn) (p : Partition) :
    recordData json dn (partitionToEntry json p) = .ok (.ofPartition p) := by
  rw [recordData, partitionToEntry, Entry.get_set, if_pos rfl]
  simp [json.fromStr_toString]

end IronDirectory.Config
