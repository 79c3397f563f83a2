import IronDirectory.Defs.Naming.Registry
import IronDirectory.Defs.Storage.Entry

namespace IronDirectory.Gc

open Base Naming Storage

def projectStep (entry : Entry) (whitelist : List Str) (projected : Entry) (name : Str) : Entry :=
  if whitelist.any fun w => w.eqIgnoreAsciiCase name then
    match entry.get name with
    | some values => projected.set name values
    | none => projected
  else projected

def project (entry : Entry) (whitelist : List Str) : Entry :=
  entry.attrNames.foldl (projectStep entry whitelist) .new

inductive MapOp
  | insert (key : Str)
  | remove (key : Str)
  deriving DecidableEq

/-- The order in which a hash map is read depends on what was done to its
keys. -/
structure Aggregate where
  entries : OrderedMap Str (Dn × Entry)
  history : List MapOp
  ready : List PartitionId

namespace Aggregate

def new : Aggregate := ⟨.empty, [], []⟩

def markReady (a : Aggregate) (pid : PartitionId) : Aggregate :=
  { a with ready := if pid ∈ a.ready then a.ready else pid :: a.ready }

def readyCount (a : Aggregate) : Nat := a.ready.length

def upsert (a : Aggregate) (dn : Dn) (entry : Entry) : Aggregate :=
  { a with
    entries := a.entries.insert dn.display (dn, entry)
    history := a.history ++ [.insert dn.display] }

def remove (a : Aggregate) (dn : Dn) : Aggregate :=
  { a with
    entries := a.entries.erase dn.display
    history := a.history ++ [.remove dn.display] }

def get (a : Aggregate) (dn : Dn) : Option Entry := (a.entries.find? dn.display).map Prod.snd

def snapshot (order : List MapOp → List Str) (a : Aggregate) : List (Dn × Entry) :=
  (order a.history).filterMap a.entries.find?

def len (a : Aggregate) : Nat := a.entries.entries.length

end Aggregate

end IronDirectory.Gc
