import IronDirectory.Defs.Kdc.Principal
import IronDirectory.Defs.Naming.AvaText
import IronDirectory.Defs.Rpc.Ndr
import IronDirectory.Defs.Storage.Trace

namespace IronDirectory.Rpc

open Base Naming Storage

namespace NtStatus

def success : UInt32 := 0

def userExists : UInt32 := 0xC0000063

def internalDbError : UInt32 := 0xC0000158

end NtStatus

inductive CallError
  | unknownOpnum
  | malformed
  deriving DecidableEq

namespace Samr

def opnumCloseHandle : UInt16 := 1

def opnumLookupDomain : UInt16 := 5

def opnumOpenDomain : UInt16 := 7

def opnumLookupNames : UInt16 := 17

def opnumOpenUser : UInt16 := 34

def opnumQueryInformationUser2 : UInt16 := 47

def opnumCreateUser2InDomain : UInt16 := 50

def opnumConnect5 : UInt16 := 64

def serverHandle : Bytes := Str.toUtf8 "SAMR" ++ 1 :: List.replicate 15 0

def domainHandle : Bytes := Str.toUtf8 "SAMR" ++ 2 :: List.replicate 15 0

def nullHandle : Bytes := List.replicate 20 0

def userHandle (rid : UInt32) : Bytes :=
  Str.toUtf8 "USR" ++ 0 :: Bytes.le 4 rid.toNat ++ List.replicate 12 0

def ridFromUserHandle (h : Bytes) : Option UInt32 :=
  if h.take 4 = Str.toUtf8 "USR" ++ [0] then
    some (UInt32.ofNat (Bytes.ofLe ((h.drop 4).take 4)))
  else none

structure SamrState where
  store : Store
  baseDn : Dn
  baseWf : baseDn.Wf
  indexSpec : IndexSpec

/-- What a call left behind; `response` is missing when its stub did not
decode, and `created` lists the entries that were not there before. -/
structure Reply where
  response : Option Bytes
  store : Store
  created : List (Dn × Entry)

def connect5 : Bytes :=
  (((((NdrWriter.new.u32 1).u32 1).u32 1).u32 3).handle serverHandle).u32 0 |>.buf

def lookupDomainInSamServer (domainSid : Sid) : Bytes :=
  ((NdrWriter.new.referentId).sidDeferred domainSid).u32 0 |>.buf

def openDomain : Bytes := (NdrWriter.new.handle domainHandle).u32 0 |>.buf

def closeHandle : Bytes := (NdrWriter.new.handle nullHandle).u32 0 |>.buf

def openUser (stub : Bytes) : Option Bytes :=
  NdrRead.run (do
    let _domainHandle ← NdrRead.handle
    let _desiredAccess ← NdrRead.u32
    let rid ← NdrRead.u32
    return (NdrWriter.new.handle (userHandle rid)).u32 0 |>.buf) stub

def readNames : List (UInt16 × UInt32) → NdrRead (List Str)
  | [] => return []
  | (_, referent) :: headers => do
    let name ← if referent ≠ 0 then NdrRead.unicodeStringDeferred else pure []
    NdrRead.padTo4
    return name :: (← readNames headers)

def readHeaders : Nat → NdrRead (List (UInt16 × UInt32))
  | 0 => return []
  | n + 1 => do
    let header ← NdrRead.unicodeStringHeader
    return header :: (← readHeaders n)

def lookupNamesArgs : NdrRead (List Str) := do
  let _domainHandle ← NdrRead.handle
  let count ← NdrRead.u32
  let _maxCount ← NdrRead.u32
  let _offset ← NdrRead.u32
  let _actualCount ← NdrRead.u32
  let headers ← readHeaders count.toNat
  readNames headers

def objectRid (entry : Entry) : Option UInt32 := entry.objectSid.bind Sid.rid

def ridOf (store : Store) (baseDn : Dn) (name : Str) : Option UInt32 :=
  let dns := (store.lookupByIndex baseDn "cn" name).toOption.getD []
  dns.findSome? fun dn => (store.getEntry dn).toOption.join.bind objectRid

def lookupNamesInDomain (state : SamrState) (stub : Bytes) : Option Bytes := do
  let names ← NdrRead.run lookupNamesArgs stub
  let found := names.map (ridOf state.store state.baseDn)
  let rids := found.map fun rid => rid.getD 0
  let uses := found.map fun rid => if rid.isSome then 1 else 0
  let array (w : NdrWriter) (vs : List UInt32) : NdrWriter :=
    vs.foldl .u32 (((w.u32 (UInt32.ofNat vs.length)).referentId).u32 (UInt32.ofNat vs.length))
  let w := array (array .new rids) uses
  return (w.u32 (if rids.all (· ≠ 0) then 0 else 0x00000107)).buf

def createUser2Args : NdrRead (Option Str) := do
  let _domainHandle ← NdrRead.handle
  let (_, referent) ← NdrRead.unicodeStringHeader
  if referent ≠ 0 then
    let name ← NdrRead.unicodeStringDeferred
    NdrRead.padTo4
    let _accountType ← NdrRead.u32
    let _desiredAccess ← NdrRead.u32
    return some name
  else
    return none

def accountName (stub : Bytes) : Option Str := (NdrRead.run createUser2Args stub).join

def accountEntry (domainSid : Sid) (name : Str) (rid : UInt32) : Entry :=
  let entry := (Entry.new.set "objectclass" ["top", "computer"]).set "cn" [name]
  let entry := entry.set objectSidAttr [encodeBinaryAttr (domainSid.withSubAuthority rid).encode]
  entry.set ntSecurityDescriptorAttr
    [encodeBinaryAttr (SecurityDescriptor.defaultDescriptor domainSid)]

def createUser2Response (rid status : UInt32) : Bytes :=
  let w := NdrWriter.new.handle (if status = NtStatus.success then userHandle rid else nullHandle)
  let w := w.u32 (if status = NtStatus.success then 0x02000000 else 0)
  ((w.u32 rid).u32 status).buf

-- The RID drawn is spent even when nothing is created.
def createAccount (state : SamrState) (domainSid : Sid) (name : Str) (dn : Dn) : Reply :=
  match state.store.allocateRid dn with
  | .error _ => ⟨some (createUser2Response 0 NtStatus.internalDbError), state.store, []⟩
  | .ok (rid, store) =>
    let rid := UInt32.ofNat rid
    let entry := accountEntry domainSid name rid
    match store.createEntry dn entry state.indexSpec with
    | .ok (true, store) => ⟨some (createUser2Response rid NtStatus.success), store, [(dn, entry)]⟩
    | .ok (false, store) => ⟨some (createUser2Response 0 NtStatus.userExists), store, []⟩
    | .error _ => ⟨some (createUser2Response 0 NtStatus.internalDbError), store, []⟩

def createUser2InDomain (state : SamrState) (domainSid : Sid) (stub : Bytes) : Reply :=
  match accountName stub with
  | none => ⟨none, state.store, []⟩
  | some name =>
    match Dn.parse (placed "cn" name state.baseDn) with
    | .error _ => ⟨none, state.store, []⟩
    | .ok dn => createAccount state domainSid name dn

def queryInformationUser2 (stub : Bytes) : Option Bytes := do
  let handle ← NdrRead.run (do
    let handle ← NdrRead.handle
    let _infoLevel ← NdrRead.u16
    return handle) stub
  let _rid ← ridFromUserHandle handle
  return ((((NdrWriter.new.referentId).u16 9).u16 0).u32 513).u32 0 |>.buf

def dispatch (state : SamrState) (domainSid : Sid) (opnum : UInt16) (stub : Bytes) :
    Except CallError Bytes × Store :=
  let answer (reply : Reply) : Except CallError Bytes × Store :=
    (Outcome.require reply.response .malformed, reply.store)
  let read (response : Option Bytes) : Except CallError Bytes × Store :=
    answer ⟨response, state.store, []⟩
  if opnum = opnumConnect5 then read (some connect5)
  else if opnum = opnumLookupDomain then read (some (lookupDomainInSamServer domainSid))
  else if opnum = opnumOpenDomain then read (some openDomain)
  else if opnum = opnumLookupNames then read (lookupNamesInDomain state stub)
  else if opnum = opnumCreateUser2InDomain then answer (createUser2InDomain state domainSid stub)
  else if opnum = opnumOpenUser then read (openUser stub)
  else if opnum = opnumQueryInformationUser2 then read (queryInformationUser2 stub)
  else if opnum = opnumCloseHandle then read (some closeHandle)
  else (.error .unknownOpnum, state.store)

def statusOf (response : Bytes) : UInt32 :=
  UInt32.ofNat (Bytes.ofLe (response.drop (response.length - 4)))

def ridField (response : Bytes) : UInt32 :=
  UInt32.ofNat (Bytes.ofLe ((response.drop (response.length - 8)).take 4))

end Samr

end IronDirectory.Rpc
