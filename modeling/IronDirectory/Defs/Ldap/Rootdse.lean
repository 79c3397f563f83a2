import IronDirectory.Defs.Naming.Registry

namespace IronDirectory.Ldap

open Base Naming

structure PartialAttribute where
  type : Str
  vals : List Bytes
  deriving DecidableEq

structure SearchResultEntry where
  objectName : Str
  attributes : List PartialAttribute
  deriving DecidableEq

namespace Rootdse

def attr (name : Str) (values : List Str) : PartialAttribute := ⟨name, values.map Str.toUtf8⟩

def singleDomainPartition (registry : PartitionRegistry) : Option Partition :=
  PartitionRegistry.single (registry.iter.filter fun p => p.kind = .domain)

def contextAttr (name : Str) (found : Option Partition) : List PartialAttribute :=
  found.toList.map fun p => attr name [p.baseDn.display]

def realmAttrs (domain : Partition) : List PartialAttribute :=
  match domain.realm with
  | none => []
  | some realm =>
    [attr "dnsHostName" ["iron-ldapd." ++ realm.asciiLower],
      attr "ldapServiceName" [realm.asciiLower ++ ":iron-ldapd@" ++ realm],
      attr "serverName" ["cn=iron-ldapd," ++ domain.baseDn.display],
      attr "dsServiceName" ["cn=iron-ldapd," ++ domain.baseDn.display]]

def domainAttrs (registry : PartitionRegistry) (domain : Partition) : List PartialAttribute :=
  [attr "supportedCapabilities" ["1.2.840.113556.1.4.800"],
    attr "defaultNamingContext" [domain.baseDn.display]] ++
  contextAttr "configurationNamingContext" (registry.configPartition domain.forest) ++
  contextAttr "schemaNamingContext" (registry.schemaPartition domain.forest) ++
  contextAttr "rootDomainNamingContext" (registry.rootDomainPartition domain.forest) ++
  [attr "domainFunctionality" ["7"], attr "forestFunctionality" ["7"],
    attr "domainControllerFunctionality" ["10"], attr "isSynchronized" ["TRUE"],
    attr "highestCommittedUSN" ["1"]] ++
  realmAttrs domain ++
  (registry.schemaPartition domain.forest).toList.map fun schema =>
    attr "subschemaSubentry" ["cn=aggregate," ++ schema.baseDn.display]

def build (registry : PartitionRegistry) (fipsActive : Bool) : SearchResultEntry :=
  let namingContexts := registry.iter.map fun p => p.baseDn.display
  ⟨[], [attr "objectClass" ["top"], attr "supportedLDAPVersion" ["3"],
      attr "vendorName" ["irondirectory"]] ++
    (if fipsActive then [attr "supportedSASLMechanisms" ["GSSAPI", "GSS-SPNEGO"]] else []) ++
    (if namingContexts.isEmpty then [] else [attr "namingContexts" namingContexts]) ++
    ((singleDomainPartition registry).map (domainAttrs registry)).getD []⟩

end Rootdse

end IronDirectory.Ldap
