import IronDirectory.Defs.Naming.Registry

namespace IronDirectory.Naming

open Base

def ForestId.new (s : Str) : Except PartitionError ForestId :=
  if h : validId s = true then .ok ⟨s, h⟩ else .error (.invalidForestId s)

def ClusterRef.plaintext (endpoints : List Str) : ClusterRef := ⟨endpoints, none⟩

def realmFromDn (dn : Dn) : Option Str :=
  let labels := dn.rdns.filterMap fun r =>
    match r.avas with
    | [a] => if a.attr = "dc" then some a.value.asciiUpper else none
    | _ => none
  if labels.isEmpty then none else some (Str.join '.' labels)

namespace Partition

def blank (id : PartitionId) (forest : ForestId) (baseDn : Dn) (kind : PartitionKind)
    (cluster : ClusterRef) : Partition :=
  ⟨id, forest, baseDn, kind, none, cluster, none, [], none, none, none, none⟩

def domain (id : Str) (forest : ForestId) (baseDn : Dn) (cluster : ClusterRef) :
    Except PartitionError Partition := do
  let id ← PartitionId.new id
  return { blank id forest baseDn .domain cluster with realm := realmFromDn baseDn }

def configuration (id : Str) (forest : ForestId) (baseDn : Dn) (cluster : ClusterRef) :
    Except PartitionError Partition := do
  let id ← PartitionId.new id
  return blank id forest baseDn .configuration cluster

def schema (id : Str) (forest : ForestId) (baseDn : Dn) (cluster : ClusterRef) :
    Except PartitionError Partition := do
  let id ← PartitionId.new id
  return blank id forest baseDn .schema cluster

def withSuperior (p : Partition) (superior : PartitionId) : Partition :=
  { p with superior := some superior }

def withRealm (p : Partition) (realm : Str) : Partition :=
  { p with realm := some realm.asciiUpper }

def withLdapUrl (p : Partition) (url : Str) : Partition := { p with ldapUrl := some url }

def withKdcUrl (p : Partition) (url : Str) : Partition := { p with kdcUrl := some url }

def withDomainSid (p : Partition) (sid : Str) : Partition := { p with domainSid := some sid }

def withNetbiosName (p : Partition) (name : Str) : Partition :=
  { p with netbiosName := some name.asciiUpper }

end Partition

end IronDirectory.Naming
