import IronDirectory.Defs.Ldap.Filter
import IronDirectory.Defs.Ldap.Provision
import IronDirectory.Defs.Ldap.Rootdse
import IronDirectory.Defs.Storage.Subtree

namespace IronDirectory.Ldap

open Base Naming Storage

inductive Scope
  | baseObject
  | singleLevel
  | wholeSubtree
  | unrecognized
  deriving DecidableEq

structure SearchRequest where
  baseObject : Str
  scope : Scope
  sizeLimit : UInt32
  typesOnly : Bool
  filter : Filter
  attributes : List Str

inductive SearchOp
  | entry (e : SearchResultEntry)
  | done (result : LdapResult)
  deriving DecidableEq

def done (code : ResultCode) (diagnostic : Str) : List SearchOp :=
  [.done (.new code diagnostic)]

namespace SearchRequest

def limit (req : SearchRequest) : Nat :=
  if req.sizeLimit = 0 then 2 ^ 64 - 1 else req.sizeLimit.toNat

def wantAll (req : SearchRequest) : Bool :=
  req.attributes.isEmpty || req.attributes.any (· == "*")

def explicitlyRequested (req : SearchRequest) (name : Str) : Bool :=
  req.attributes.any fun a => a.eqIgnoreAsciiCase name

def projectWith (req : SearchRequest) (returned : Str → Bool) (wire : Str → Str → Bytes)
    (entry : Entry) : List PartialAttribute :=
  (entry.attrNames.filter returned).map fun name =>
    ⟨name, if req.typesOnly then [] else (entry.valuesOf name).map (wire name)⟩

def answer (u : Unicode) (req : SearchRequest) (project : Entry → List PartialAttribute) :
    Nat → List (Dn × Entry) → List SearchOp
  | _, [] => done .success ""
  | sent, (dn, entry) :: rest =>
    if Filter.matchesEntry u entry req.filter then
      if sent = req.limit then done .sizeLimitExceeded ""
      else .entry ⟨dn.display, project entry⟩ :: answer u req project (sent + 1) rest
    else answer u req project sent rest

-- A stored password is never returned unless it is asked for by name.
def returned (req : SearchRequest) (name : Str) : Bool :=
  if isUserPassword name then req.explicitlyRequested name
  else req.wantAll || req.explicitlyRequested name

def wire (name value : Str) : Bytes :=
  if isBinaryAttr name then decodeBinaryAttr value else value.toUtf8

def projectAttributes (req : SearchRequest) (entry : Entry) : List PartialAttribute :=
  req.projectWith req.returned wire entry

end SearchRequest

structure Searcher where
  unicode : Unicode
  debugStr : Str → Str
  referrals : Referrals
  fipsActive : Bool

namespace Searcher

variable (srv : Searcher)

def candidates (store : Store) (scope : Scope) (baseDn : Dn) :
    Except LdapResult (List (Dn × Entry)) :=
  let failed (e : StoreError) := srv.referrals.storeErrorResult srv.debugStr e baseDn
  match scope with
  | .baseObject =>
    match store.getEntry baseDn with
    | .ok (some e) => .ok [(baseDn, e)]
    | .ok none => .error (.new .noSuchObject "")
    | .error e => .error (failed e)
  | .singleLevel =>
    match store.scanSubtree baseDn with
    | .ok rows => .ok (rows.filter fun row => row.1.depth = baseDn.depth + 1)
    | .error e => .error (failed e)
  | .wholeSubtree => (store.scanSubtree baseDn).mapError failed
  | .unrecognized => .error (.new .protocolError "unrecognized search scope")

def handleSearch (store : Store) (req : SearchRequest) : List SearchOp :=
  match Dn.parse req.baseObject with
  | .error _ => done .invalidDnSyntax "invalid base DN"
  | .ok baseDn =>
    if baseDn.isEmpty ∧ req.scope = .baseObject then
      .entry (Rootdse.build (srv.referrals.topology.getD store.registry) srv.fipsActive) ::
        done .success ""
    else
      match srv.referrals.proactiveReferral baseDn with
      | some result => [.done result]
      | none =>
        match srv.candidates store req.scope baseDn with
        | .error result => [.done result]
        | .ok rows => req.answer srv.unicode req.projectAttributes 0 rows

end Searcher

end IronDirectory.Ldap
