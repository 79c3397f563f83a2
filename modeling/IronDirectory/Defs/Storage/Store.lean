import IronDirectory.Defs.Base.Transaction
import IronDirectory.Defs.Naming.Key
import IronDirectory.Defs.Storage.Entry

namespace IronDirectory.Storage

open Base Naming

/-- One cluster as a client sees it: its contents, and the error with which it
finally answers a read of a key or refuses a transaction. -/
structure Cluster where
  kv : OrderedMap Str Value
  readFailure : Str → Option Str
  writeFailure : List (TxnOp Str Value) → Option Str

namespace Cluster

def empty : Cluster := ⟨.empty, fun _ => none, fun _ => none⟩

def get (c : Cluster) (key : Str) : Except StoreError (Option Value) :=
  match c.readFailure key with
  | some e => .error (.etcd e)
  | none => .ok (c.kv.find? key)

def getPrefix (c : Cluster) (pfx : Str) : Except StoreError (List (Str × Value)) :=
  match c.readFailure pfx with
  | some e => .error (.etcd e)
  | none => .ok (c.kv.scan fun k => pfx.isPrefixOf k)

def txn (c : Cluster) (ops : List (TxnOp Str Value)) : Except StoreError Cluster :=
  match c.writeFailure ops with
  | some e => .error (.etcd e)
  | none => .ok { c with kv := TxnOp.applyAll ops c.kv }

def txnIfAbsent (c : Cluster) (key : Str) (ops : List (TxnOp Str Value)) :
    Except StoreError (Bool × Cluster) :=
  match c.writeFailure ops with
  | some e => .error (.etcd e)
  | none =>
    match c.kv.find? key with
    | some _ => .ok (false, c)
    | none => .ok (true, { c with kv := TxnOp.applyAll ops c.kv })

end Cluster

structure IndexSpec where
  attrs : List Str
  folded : ∀ a ∈ attrs, a.asciiLower = a

def IndexSpec.new (attrs : List Str) : IndexSpec :=
  ⟨attrs.map Str.asciiLower, by simp⟩

namespace Index

def indexKeysFor (pid : PartitionId) (dn : Dn) (entry : Entry) (spec : IndexSpec) : List Str :=
  spec.attrs.flatMap fun attr =>
    match entry.get attr with
    | none => []
    | some values => values.map fun v => Key.indexKey pid attr v dn

def readEntry (c : Cluster) (pid : PartitionId) (dn : Dn) : Except StoreError (Option Entry) := do
  match ← c.get (Key.entryKey pid dn) with
  | none => return none
  | some v => return some (← v.decode)

def putOps (pid : PartitionId) (dn : Dn) (old : Option Entry) (entry : Entry)
    (spec : IndexSpec) : List (TxnOp Str Value) :=
  let newKeys := indexKeysFor pid dn entry spec
  let oldKeys := (old.map fun e => indexKeysFor pid dn e spec).getD []
  (oldKeys.filter fun k => !newKeys.contains k).map .delete ++
    .put (Key.entryKey pid dn) (.entry entry) :: newKeys.map fun k => .put k (.text dn.display)

def putEntryIndexed (c : Cluster) (pid : PartitionId) (dn : Dn) (entry : Entry)
    (spec : IndexSpec) : Except StoreError Cluster := do
  let old ← readEntry c pid dn
  c.txn (putOps pid dn old entry spec)

def createOps (pid : PartitionId) (dn : Dn) (entry : Entry) (spec : IndexSpec) :
    List (TxnOp Str Value) :=
  .put (Key.entryKey pid dn) (.entry entry) ::
    (indexKeysFor pid dn entry spec).map fun k => .put k (.text dn.display)

def createEntryIndexed (c : Cluster) (pid : PartitionId) (dn : Dn) (entry : Entry)
    (spec : IndexSpec) : Except StoreError (Bool × Cluster) :=
  c.txnIfAbsent (Key.entryKey pid dn) (createOps pid dn entry spec)

def deleteOps (pid : PartitionId) (dn : Dn) (old : Entry) (spec : IndexSpec) :
    List (TxnOp Str Value) :=
  .delete (Key.entryKey pid dn) :: (indexKeysFor pid dn old spec).map .delete

def deleteEntryIndexed (c : Cluster) (pid : PartitionId) (dn : Dn) (spec : IndexSpec) :
    Except StoreError Cluster := do
  match ← readEntry c pid dn with
  | none => return c
  | some old => c.txn (deleteOps pid dn old spec)

def lookupByIndex (c : Cluster) (pid : PartitionId) (attr value : Str) :
    Except StoreError (List Dn) := do
  let kvs ← c.getPrefix (Key.indexPrefix pid attr value)
  kvs.mapM fun kv => do
    let s ← kv.2.str
    (Dn.parse s).mapError .partition

end Index

/-- One client per registered partition; partitions that name the same
cluster share its contents. -/
structure Store where
  registry : PartitionRegistry
  clusters : ClusterRef → Cluster

namespace Store

def resolve (s : Store) (dn : Dn) : Except StoreError Partition :=
  match s.registry.resolve dn with
  | none => .error (.noPartitionFor dn.display)
  | some p => .ok p

def client (s : Store) (pid : PartitionId) : Except StoreError ClusterRef :=
  match s.registry.get pid with
  | none => .error (.notConnected pid.str)
  | some p => .ok p.cluster

def setCluster (s : Store) (ref : ClusterRef) (c : Cluster) : Store :=
  { s with clusters := Function.update s.clusters ref c }

def putEntry (s : Store) (dn : Dn) (entry : Entry) (spec : IndexSpec) :
    Except StoreError Store := do
  let p ← s.resolve dn
  let ref ← s.client p.id
  return s.setCluster ref (← Index.putEntryIndexed (s.clusters ref) p.id dn entry spec)

def createEntry (s : Store) (dn : Dn) (entry : Entry) (spec : IndexSpec) :
    Except StoreError (Bool × Store) := do
  let p ← s.resolve dn
  let ref ← s.client p.id
  let (created, c) ← Index.createEntryIndexed (s.clusters ref) p.id dn entry spec
  return (created, s.setCluster ref c)

def getEntry (s : Store) (dn : Dn) : Except StoreError (Option Entry) := do
  let p ← s.resolve dn
  let ref ← s.client p.id
  Index.readEntry (s.clusters ref) p.id dn

def deleteEntry (s : Store) (dn : Dn) (spec : IndexSpec) : Except StoreError Store := do
  let p ← s.resolve dn
  let ref ← s.client p.id
  return s.setCluster ref (← Index.deleteEntryIndexed (s.clusters ref) p.id dn spec)

def lookupByIndex (s : Store) (dnInPartition : Dn) (attr value : Str) :
    Except StoreError (List Dn) := do
  let p ← s.resolve dnInPartition
  let ref ← s.client p.id
  Index.lookupByIndex (s.clusters ref) p.id attr value

end Store

end IronDirectory.Storage
