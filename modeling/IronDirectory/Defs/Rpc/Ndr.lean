import IronDirectory.Defs.Naming.Sid

namespace IronDirectory.Rpc

open Base Naming

inductive NdrError
  | truncated (need left : Nat)
  | badSid
  | badString
  deriving DecidableEq

structure NdrWriter where
  buf : Bytes
  nextReferentId : UInt32

namespace NdrWriter

def firstReferentId : UInt32 := 0x00020000

def new : NdrWriter := ⟨[], firstReferentId⟩

def bytes (w : NdrWriter) (b : Bytes) : NdrWriter := { w with buf := w.buf ++ b }

def u8 (w : NdrWriter) (v : UInt8) : NdrWriter := w.bytes [v]

def u16 (w : NdrWriter) (v : UInt16) : NdrWriter := w.bytes (Bytes.le 2 v.toNat)

def u32 (w : NdrWriter) (v : UInt32) : NdrWriter := w.bytes (Bytes.le 4 v.toNat)

def u64 (w : NdrWriter) (v : UInt64) : NdrWriter := w.bytes (Bytes.le 8 v.toNat)

def referentId (w : NdrWriter) : NdrWriter :=
  { w.u32 w.nextReferentId with nextReferentId := w.nextReferentId + 4 }

def nullPtr (w : NdrWriter) : NdrWriter := w.u32 0

def padTo4 (w : NdrWriter) : NdrWriter :=
  w.bytes (List.replicate ((4 - w.buf.length % 4) % 4) 0)

def unicodeStringHeader (w : NdrWriter) (s : Str) : NdrWriter :=
  if s = [] then ((w.u16 0).u16 0).nullPtr
  else
    let len := UInt16.ofNat (s.encodeUtf16.length * 2)
    ((w.u16 len).u16 len).referentId

def embeddedWstr (w : NdrWriter) (s : Str) : NdrWriter :=
  let units := s.encodeUtf16
  let w := ((w.u32 (UInt32.ofNat units.length)).u32 0).u32 (UInt32.ofNat units.length)
  units.foldl .u16 w

def unicodeStringDeferred (w : NdrWriter) (s : Str) : NdrWriter :=
  if s = [] then w else (w.embeddedWstr s).padTo4

def handle (w : NdrWriter) (h : Bytes) : NdrWriter := w.bytes h

def sidDeferred (w : NdrWriter) (sid : Sid) : NdrWriter :=
  (w.u32 (UInt32.ofNat sid.subAuthorities.length)).bytes sid.encode

end NdrWriter

structure NdrReader where
  buf : Bytes
  pos : Nat

abbrev NdrRead := StateT NdrReader (Except NdrError)

namespace NdrRead

def run {α : Type} (read : NdrRead α) (stub : Bytes) : Option α :=
  (StateT.run' read ⟨stub, 0⟩).toOption

def need (n : Nat) : NdrRead Unit := do
  let r ← get
  if r.pos + n > r.buf.length then throw (.truncated n (r.buf.length - r.pos))

def bytes (n : Nat) : NdrRead Bytes := do
  need n
  let r ← get
  set { r with pos := r.pos + n }
  return (r.buf.drop r.pos).take n

def u8 : NdrRead UInt8 := do return UInt8.ofNat (Bytes.ofLe (← bytes 1))

def u16 : NdrRead UInt16 := do return UInt16.ofNat (Bytes.ofLe (← bytes 2))

def u32 : NdrRead UInt32 := do return UInt32.ofNat (Bytes.ofLe (← bytes 4))

def u64 : NdrRead UInt64 := do return UInt64.ofNat (Bytes.ofLe (← bytes 8))

def handle : NdrRead Bytes := bytes 20

-- Stops at the end of the data, whatever its length.
def padTo4 : NdrRead Unit := modify fun r =>
  { r with pos := if r.pos < r.buf.length then min (r.pos + (4 - r.pos % 4) % 4) r.buf.length
                  else r.pos }

def unicodeStringHeader : NdrRead (UInt16 × UInt32) := do
  let length ← u16
  let _maxLength ← u16
  let referent ← u32
  return (length, referent)

def units : Nat → NdrRead (List UInt16)
  | 0 => return []
  | n + 1 => do
    let u ← u16
    return u :: (← units n)

def unicodeStringDeferred : NdrRead Str := do
  let maxCount ← u32
  let _offset ← u32
  let actualCount ← u32
  let us ← units actualCount.toNat
  if maxCount > actualCount then
    let _ ← bytes ((maxCount.toNat - actualCount.toNat) * 2)
  match Str.fromUtf16 us with
  | some s => return s
  | none => throw .badString

def embeddedWstr : NdrRead Str := unicodeStringDeferred

def sidDeferred : NdrRead Sid := do
  let count ← u32
  let flat ← bytes (8 + 4 * count.toNat)
  match Sid.decode flat with
  | some sid => return sid
  | none => throw .badSid

end NdrRead

end IronDirectory.Rpc
