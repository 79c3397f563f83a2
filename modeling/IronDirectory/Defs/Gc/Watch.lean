import IronDirectory.Defs.Gc.Aggregate
import IronDirectory.Defs.Storage.Subtree
import IronDirectory.Defs.Storage.Watch

namespace IronDirectory.Gc

open Base Naming Storage

def applyEntry (p : Partition) (whitelist : List Str) (key : Str) (entry : Entry)
    (a : Aggregate) : Except StoreError Aggregate := do
  let dn ← Tree.dnFromTreeKey p.id key
  return a.upsert dn (project entry whitelist)

def applyPut (p : Partition) (whitelist : List Str) (key : Str) (value : Value) (a : Aggregate) :
    Except StoreError Aggregate := do
  let entry ← value.decode
  applyEntry p whitelist key entry a

-- A row or event that cannot be read is logged and skipped.
def applyRow (p : Partition) (whitelist : List Str) (row : Str × Value) (a : Aggregate) :
    Aggregate :=
  ((applyPut p whitelist row.1 row.2 a).toOption).getD a

def applyChange (p : Partition) (whitelist : List Str) (change : Watch.EntryChange)
    (a : Aggregate) : Aggregate :=
  match change with
  | .put key entry => ((applyEntry p whitelist key entry a).toOption).getD a
  | .delete key =>
    match Tree.dnFromTreeKey p.id key with
    | .ok dn => a.remove dn
    | .error _ => a

inductive Stage
  | idle
  | subscribed
  | ranged (rows : List (Str × Value))
  | loading (rows : List (Str × Value))
  | watching

def Stage.connected : Stage → Bool
  | .idle => false
  | _ => true

structure System where
  kv : OrderedMap Str Value
  aggregate : Aggregate
  stage : Stage
  stream : Watch.Stream

def changes : List (TxnOp Str Value) → OrderedMap Str Value → List (Str × Option Value)
  | [], _ => []
  | .put k v :: ops, kv => (k, some v) :: changes ops (kv.insert k v)
  | .delete k :: ops, kv =>
    if (kv.find? k).isSome then (k, none) :: changes ops (kv.erase k)
    else changes ops (kv.erase k)

def event (change : Str × Option Value) : Watch.Event :=
  match change.2 with
  | some v => ⟨.put, some ⟨some change.1, v⟩⟩
  | none => ⟨.delete, some ⟨some change.1, .text []⟩⟩

def watched (p : Partition) (key : Str) : Bool :=
  (Key.subtreePrefix p.id p.baseDn).isPrefixOf key

inductive Action
  | write (ops : List (TxnOp Str Value)) (responses : List Watch.Response)
  | subscribe
  | range
  | base
  | load
  | ready
  | deliver
  | disconnect

inductive Step (p : Partition) (whitelist : List Str) : System → Action → System → Prop
  -- The cluster groups the events of a transaction into responses as it likes.
  | write {s : System} {ops : List (TxnOp Str Value)} {responses : List Watch.Response} :
    (responses.flatMap Watch.Response.events =
      if s.stage.connected then
        ((changes ops s.kv).filter fun c => watched p c.1).map event
      else []) →
    Step p whitelist s (.write ops responses)
      { s with kv := TxnOp.applyAll ops s.kv, stream := s.stream ++ responses.map .ok }
  | subscribe {s : System} : s.stage = .idle →
    Step p whitelist s .subscribe { s with stage := .subscribed, stream := [] }
  | range {s : System} : s.stage = .subscribed →
    Step p whitelist s .range { s with stage := .ranged (s.kv.scan (watched p)) }
  | base {s : System} {rows : List (Str × Value)} : s.stage = .ranged rows →
    Step p whitelist s .base
      { s with
        stage := .loading (((s.kv.find? (Key.entryKey p.id p.baseDn)).map fun v =>
          (Key.entryKey p.id p.baseDn, v)).toList ++ rows) }
  | load {s : System} {row : Str × Value} {rows : List (Str × Value)} :
    s.stage = .loading (row :: rows) →
    Step p whitelist s .load
      { s with aggregate := applyRow p whitelist row s.aggregate, stage := .loading rows }
  | ready {s : System} : s.stage = .loading [] →
    Step p whitelist s .ready
      { s with aggregate := s.aggregate.markReady p.id, stage := .watching }
  | deliver {s : System} {change : Watch.EntryChange} {stream : Watch.Stream} :
    s.stage = .watching → Watch.nextEntryChange s.stream = .ok (some change, stream) →
    Step p whitelist s .deliver
      { s with aggregate := applyChange p whitelist change s.aggregate, stream := stream }
  -- Any read, or the stream, failed; what was on its way is lost.
  | disconnect {s : System} :
    Step p whitelist s .disconnect { s with stage := .idle, stream := [] }

end IronDirectory.Gc
