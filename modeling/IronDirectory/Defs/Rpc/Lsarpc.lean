import IronDirectory.Defs.Rpc.Ndr

namespace IronDirectory.Rpc

open Base Naming

structure DomainInfo where
  netbiosName : Str
  dnsDomainName : Str
  dnsForestName : Str
  domainSid : Sid

namespace Lsarpc

def opnumClose : UInt16 := 0

def opnumOpenPolicy2 : UInt16 := 44

def opnumQueryInformationPolicy2 : UInt16 := 46

def policyDnsDomainInformation : UInt16 := 12

def policyHandle : Bytes := Str.toUtf8 "LSA" ++ [0, 1] ++ List.replicate 15 0

def openPolicy2 : Bytes := (NdrWriter.new.handle policyHandle).u32 0 |>.buf

def close : Bytes := (NdrWriter.new.handle (List.replicate 20 0)).u32 0 |>.buf

def policyDnsDomainInfo (info : DomainInfo) : Bytes :=
  let w := ((NdrWriter.new.referentId).u16 policyDnsDomainInformation).u16 0
  let w := w.unicodeStringHeader info.netbiosName
  let w := w.unicodeStringHeader info.dnsDomainName
  let w := w.unicodeStringHeader info.dnsForestName
  let w := (w.bytes (List.replicate 16 0)).referentId
  let w := w.unicodeStringDeferred info.netbiosName
  let w := w.unicodeStringDeferred info.dnsDomainName
  let w := w.unicodeStringDeferred info.dnsForestName
  ((w.sidDeferred info.domainSid).u32 0).buf

def queryInformationPolicy2 (stubData : Bytes) (info : DomainInfo) : Option Bytes := do
  let level ← NdrRead.run (do
    let _handle ← NdrRead.handle
    NdrRead.u16) stubData
  if level = policyDnsDomainInformation then some (policyDnsDomainInfo info) else none

end Lsarpc

end IronDirectory.Rpc
