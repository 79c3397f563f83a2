import IronDirectory.Defs.Base.Process
import IronDirectory.Defs.Storage.Subtree

/-! The store's operations as programs over the requests they send.  Other
clients act between two requests of one operation, any request may fail, and a
transaction whose answer is lost may still have been applied. -/

namespace IronDirectory.Storage

open Base Naming

inductive Request
  | connect (ref : ClusterRef)
  | get (ref : ClusterRef) (key : Str)
  | getPrefix (ref : ClusterRef) (pfx : Str)
  | txn (ref : ClusterRef) (ops : List (TxnOp Str Value))
  | txnIfAbsent (ref : ClusterRef) (key : Str) (ops : List (TxnOp Str Value))

abbrev Clusters := ClusterRef → OrderedMap Str Value

namespace Request

def Answer : Request → Type
  | connect _ => Unit
  | get _ _ => Option Value
  | getPrefix _ _ => List (Str × Value)
  | txn _ _ => Unit
  | txnIfAbsent _ _ _ => Bool

abbrev Reply (q : Request) : Type := Except StoreError q.Answer

def isRead : Request → Bool
  | get _ _ => true
  | getPrefix _ _ => true
  | _ => false

def result (s : Clusters) : (q : Request) → q.Answer × Clusters
  | connect _ => ((), s)
  | get ref key => ((s ref).find? key, s)
  | getPrefix ref pfx => ((s ref).scan fun k => pfx.isPrefixOf k, s)
  | txn ref ops => ((), Function.update s ref (TxnOp.applyAll ops (s ref)))
  | txnIfAbsent ref key ops =>
    match (s ref).find? key with
    | some _ => (false, s)
    | none => (true, Function.update s ref (TxnOp.applyAll ops (s ref)))

end Request

/-- A request is served where the guard allows it, or refused, or served with
its answer lost. -/
inductive Serves (guard : Clusters → Request → Prop) (s : Clusters) (q : Request) :
    q.Reply → Clusters → Prop
  | answered : guard s q → Serves guard s q (.ok (q.result s).1) (q.result s).2
  | refused (e : StoreError) : Serves guard s q (.error e) s
  | lost (e : StoreError) : guard s q → Serves guard s q (.error e) (q.result s).2

abbrev Free : Clusters → Request → Prop := fun _ _ => True

abbrev Calls (ε : Type) := ExceptT ε (Prog Request Request.Reply)

namespace Calls

variable {ε ε' α : Type}

def send (q : Request) : Prog Request Request.Reply q.Reply := Prog.request q

def get (ref : ClusterRef) (key : Str) : Calls StoreError (Option Value) :=
  send (.get ref key)

def getPrefix (ref : ClusterRef) (pfx : Str) : Calls StoreError (List (Str × Value)) :=
  send (.getPrefix ref pfx)

def txn (ref : ClusterRef) (ops : List (TxnOp Str Value)) : Calls StoreError Unit :=
  send (.txn ref ops)

def txnIfAbsent (ref : ClusterRef) (key : Str) (ops : List (TxnOp Str Value)) :
    Calls StoreError Bool :=
  send (.txnIfAbsent ref key ops)

def ofExcept (x : Except ε α) : Calls ε α := Prog.done x

def mapError (f : ε → ε') (p : Calls ε α) : Calls ε' α := Prog.mapError f p.run

def unwrapOr (default : α) (p : Calls ε α) : Calls ε' α :=
  Prog.bind p.run fun r => .done (.ok (r.toOption.getD default))

def dial (ref : ClusterRef) : Calls StoreError Unit :=
  send (.connect ref)

def connect (reg : PartitionRegistry) : Calls StoreError Unit :=
  forM reg.iter fun p => dial p.cluster

def locate (reg : PartitionRegistry) (dn : Dn) : Except StoreError (PartitionId × ClusterRef) := do
  let p ← Outcome.require (reg.resolve dn) (.noPartitionFor dn.display)
  let q ← Outcome.require (reg.get p.id) (.notConnected p.id.str)
  return (p.id, q.cluster)

def readEntry (ref : ClusterRef) (pid : PartitionId) (dn : Dn) :
    Calls StoreError (Option Entry) := do
  match ← get ref (Key.entryKey pid dn) with
  | none => return none
  | some v => return some (← ofExcept v.decode)

def putEntry (reg : PartitionRegistry) (dn : Dn) (entry : Entry) (spec : IndexSpec) :
    Calls StoreError Unit := do
  let (pid, ref) ← ofExcept (locate reg dn)
  let old ← readEntry ref pid dn
  txn ref (Index.putOps pid dn old entry spec)

def createEntry (reg : PartitionRegistry) (dn : Dn) (entry : Entry) (spec : IndexSpec) :
    Calls StoreError Bool := do
  let (pid, ref) ← ofExcept (locate reg dn)
  txnIfAbsent ref (Key.entryKey pid dn) (Index.createOps pid dn entry spec)

def getEntry (reg : PartitionRegistry) (dn : Dn) : Calls StoreError (Option Entry) := do
  let (pid, ref) ← ofExcept (locate reg dn)
  readEntry ref pid dn

def lookupByIndex (reg : PartitionRegistry) (dnInPartition : Dn) (attr value : Str) :
    Calls StoreError (List Dn) := do
  let (pid, ref) ← ofExcept (locate reg dnInPartition)
  let kvs ← getPrefix ref (Key.indexPrefix pid attr value)
  ofExcept (kvs.mapM fun kv => do
    let s ← kv.2.str
    (Dn.parse s).mapError .partition)

def withBase (key : Str) (base : Option Value) (out : List (Str × Value)) : List (Str × Value) :=
  match base with
  | some v => (key, v) :: out
  | none => out

def scanSubtree (reg : PartitionRegistry) (dn : Dn) : Calls StoreError (List (Dn × Entry)) := do
  let (pid, ref) ← ofExcept (locate reg dn)
  let out ← getPrefix ref (Key.subtreePrefix pid dn)
  let base ← get ref (Key.entryKey pid dn)
  ofExcept ((withBase (Key.entryKey pid dn) base out).mapM (Tree.readRow pid))

end Calls

namespace Store

/-- One client's view of its clusters, with the failures it is about to see. -/
def answer (s : Store) : (q : Request) → q.Reply × Store
  | .connect _ => (.ok (), s)
  | .get ref key => ((s.clusters ref).get key, s)
  | .getPrefix ref pfx => ((s.clusters ref).getPrefix pfx, s)
  | .txn ref ops =>
    match (s.clusters ref).txn ops with
    | .error e => (.error e, s)
    | .ok c => (.ok (), s.setCluster ref c)
  | .txnIfAbsent ref key ops =>
    match (s.clusters ref).txnIfAbsent key ops with
    | .error e => (.error e, s)
    | .ok (created, c) => (.ok created, s.setCluster ref c)

def contents (s : Store) : Clusters := fun ref => (s.clusters ref).kv

def after {α : Type} (s : Store) (r : Except StoreError (α × Store)) : Except StoreError α × Store :=
  match r with
  | .ok (a, s') => (.ok a, s')
  | .error e => (.error e, s)

theorem contents_setCluster (s : Store) (ref : ClusterRef) (c : Cluster) :
    (s.setCluster ref c).contents = Function.update s.contents ref c.kv := by
  funext ref'
  by_cases h : ref' = ref
  · subst h
    simp [contents, setCluster]
  · simp [contents, setCluster, Function.update_of_ne h]

theorem serves_answer (s : Store) (q : Request) :
    Serves Free s.contents q (s.answer q).1 (s.answer q).2.contents := by
  cases q with
  | connect ref => exact .answered trivial
  | get ref key =>
    simp only [answer, Cluster.get]
    cases (s.clusters ref).readFailure key with
    | none => exact .answered trivial
    | some e => exact .refused _
  | getPrefix ref pfx =>
    simp only [answer, Cluster.getPrefix]
    cases (s.clusters ref).readFailure pfx with
    | none => exact .answered trivial
    | some e => exact .refused _
  | txn ref ops =>
    simp only [answer, Cluster.txn]
    cases (s.clusters ref).writeFailure ops with
    | none =>
      rw [contents_setCluster]
      exact .answered (q := .txn ref ops) trivial
    | some e => exact .refused _
  | txnIfAbsent ref key ops =>
    have hserved : Serves Free s.contents (.txnIfAbsent ref key ops) _ _ := .answered trivial
    have hkv : s.contents ref = (s.clusters ref).kv := rfl
    simp only [answer, Cluster.txnIfAbsent]
    simp only [Request.result, hkv] at hserved
    cases (s.clusters ref).writeFailure ops with
    | some e => exact .refused _
    | none =>
      cases h : (s.clusters ref).kv.find? key with
      | some v =>
        rw [h] at hserved
        rwa [contents_setCluster, ← hkv, Function.update_eq_self]
      | none =>
        rw [h] at hserved
        rwa [contents_setCluster]

theorem exec_eval {α : Type} (s : Store) (p : Prog Request Request.Reply α) :
    Prog.Exec (Serves Free) s.contents p (p.replies answer s) (p.eval answer s).2.contents
      (p.eval answer s).1 :=
  Prog.exec_eval contents serves_answer p s

section Eval

variable (s : Store) (dn : Dn)

def located {β : Type} (k : PartitionId → ClusterRef → Except StoreError β) :
    Except StoreError β := do
  let p ← s.resolve dn
  let ref ← s.client p.id
  k p.id ref

theorem locate_eq : Calls.locate s.registry dn = s.located dn fun pid ref => .ok (pid, ref) := by
  simp only [Calls.locate, located, resolve, client]
  cases s.registry.resolve dn with
  | none => rfl
  | some p =>
    simp only [Outcome.require_some, Outcome.ok_bind]
    cases s.registry.get p.id with
    | none => rfl
    | some q => rfl

theorem eval_located {α β : Type} {f : PartitionId × ClusterRef → Calls StoreError α}
    {k : PartitionId → ClusterRef → Except StoreError β} {g : β → α × Store}
    (h : ∀ pid ref, (f (pid, ref)).run.eval answer s = s.after ((k pid ref).map g)) :
    (Calls.ofExcept (Calls.locate s.registry dn) >>= f).run.eval answer s =
      s.after ((s.located dn k).map g) := by
  rw [Prog.eval_bind_except, locate_eq, located, located]
  cases s.resolve dn with
  | error e => rfl
  | ok p =>
    simp only [Outcome.ok_bind]
    cases s.client p.id with
    | error e => rfl
    | ok ref => exact h p.id ref

theorem after_read {α : Type} (r : Except StoreError α) :
    s.after (r.map fun a => (a, s)) = (r, s) := by
  cases r with
  | error e => rfl
  | ok a => rfl

theorem eval_get (ref : ClusterRef) (key : Str) :
    (Calls.get ref key).run.eval answer s = ((s.clusters ref).get key, s) := rfl

theorem eval_getPrefix (ref : ClusterRef) (pfx : Str) :
    (Calls.getPrefix ref pfx).run.eval answer s = ((s.clusters ref).getPrefix pfx, s) := rfl

theorem eval_scanSubtree :
    (Calls.scanSubtree s.registry dn).run.eval answer s = (s.scanSubtree dn, s) := by
  rw [← after_read s (s.scanSubtree dn)]
  refine eval_located s dn (k := fun pid ref => do
    let rows ← Tree.scanSubtree (s.clusters ref) pid dn
    rows.mapM (Tree.readRow pid)) fun pid ref => ?_
  rw [after_read, Tree.scanSubtree]
  simp only [Prog.eval_bind_except, eval_getPrefix, eval_get]
  cases (s.clusters ref).getPrefix (Key.subtreePrefix pid dn) with
  | error e => rfl
  | ok out =>
    simp only [Outcome.ok_bind]
    cases (s.clusters ref).get (Key.entryKey pid dn) with
    | error e => rfl
    | ok base =>
      cases base with
      | none => rfl
      | some v => rfl

end Eval

end Store

end IronDirectory.Storage
