import IronDirectory.Defs.Base.OrderedMap
import IronDirectory.Defs.Naming.Dn

namespace IronDirectory.Storage

open Base Naming

structure Entry where
  attrs : OrderedMap Str (List Str)

namespace Entry

def new : Entry := ⟨.empty⟩

instance : Inhabited Entry := ⟨new⟩

def set (e : Entry) (attr : Str) (values : List Str) : Entry :=
  ⟨e.attrs.insert attr.asciiLower values⟩

def get (e : Entry) (attr : Str) : Option (List Str) := e.attrs.find? attr.asciiLower

def addValues (e : Entry) (attr : Str) (values : List Str) : Entry :=
  let old := (e.attrs.find? attr.asciiLower).getD []
  ⟨e.attrs.insert attr.asciiLower
    (values.foldl (fun vs v => if v ∈ vs then vs else vs ++ [v]) old)⟩

def deleteValues (e : Entry) (attr : Str) (values : List Str) : Entry :=
  if values.isEmpty then ⟨e.attrs.erase attr.asciiLower⟩
  else
    match e.attrs.find? attr.asciiLower with
    | none => e
    | some old =>
      let kept := old.filter fun v => !values.contains v
      if kept.isEmpty then ⟨e.attrs.erase attr.asciiLower⟩
      else ⟨e.attrs.insert attr.asciiLower kept⟩

def attrNames (e : Entry) : List Str := e.attrs.entries.map Prod.fst

def valuesOf (e : Entry) (attr : Str) : List Str := (e.get attr).getD []

theorem get_congr {a b : Str} (h : a.asciiLower = b.asciiLower) (e : Entry) :
    e.get a = e.get b := by
  rw [get, get, h]

end Entry

inductive StoreError
  | etcd (message : Str)
  | entryDecode
  | partition (e : PartitionError)
  | noPartitionFor (dn : Str)
  | notConnected (pid : Str)
  | ridPoolCorrupt (pid value : Str)
  deriving DecidableEq

/-- What a key holds: a serialised entry, or the text the indexes and the RID
pool store.  Serialisation is represented by its round trip. -/
inductive Value
  | entry (e : Entry)
  | text (s : Str)

def Value.decode : Value → Except StoreError Entry
  | .entry e => .ok e
  | .text _ => .error .entryDecode

def Value.str : Value → Except StoreError Str
  | .entry _ => .error (.etcd "invalid utf-8")
  | .text s => .ok s

end IronDirectory.Storage
