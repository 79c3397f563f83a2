import IronDirectory.Defs.Kdc.Pac

namespace IronDirectory.Kdc

open Base Crypto Kerberos Naming Storage

def indexSpec : IndexSpec :=
  .new ["cn", "mail", "uid", "member", "samaccountname", attrPrincipalName]

structure AppState where
  store : Store
  indexSpec : IndexSpec
  baseDn : Dn
  realm : Str
  topology : Option PartitionRegistry
  ownPartitionId : Option PartitionId

def kdcErrCPrincipalUnknown : Int32 := 6

def kdcErrSPrincipalUnknown : Int32 := 7

def kdcErrEtypeNosupp : Int32 := 14

def kdcErrPreauthFailed : Int32 := 24

def kdcErrPreauthRequired : Int32 := 25

def krbApErrBadIntegrity : Int32 := 31

def krbApErrTktExpired : Int32 := 32

def krbApErrBadmatch : Int32 := 36

def krbApErrSkew : Int32 := 37

def krbErrGeneric : Int32 := 60

def buildError (t : Int) (errorCode : Int32) (realm : Str) (sname : PrincipalName)
    (eText : Option Str) (eData : Option Bytes) : KrbError where
  pvno := 5
  msgType := 30
  ctime := none
  cusec := none
  stime := (now t).1
  susec := (now t).2
  errorCode := errorCode
  crealm := none
  cname := none
  realm := stringToGstring realm
  sname := sname
  eText := eText.map stringToGstring
  eData := eData

/-- Why an exchange ends without a ticket: an error reply, or a panic that
drops the request. -/
inductive Stop
  | refuse (e : KrbError)
  | panic

def refuse (env : Env) (realm : Str) (code : Int32) (text : Str) : Stop :=
  .refuse (buildError (env.clock.reading 9) code realm (krbtgtPrincipalName realm) (some text) none)

def single (found : Except StoreError (List Dn)) : Option Dn :=
  match found with
  | .ok [dn] => some dn
  | _ => none

def present (read : Except StoreError (Option Entry)) : Option Entry :=
  match read with
  | .ok (some e) => some e
  | _ => none

def AppState.findPrincipal (app : AppState) (principal : Str) : Option Dn :=
  single (app.store.lookupByIndex app.baseDn attrPrincipalName principal)

def AppState.entryAt (app : AppState) (dn : Dn) : Option Entry := present (app.store.getEntry dn)

def keysOrStop (P : Platform) (env : Env) (realm : Str) (code : Int32) (entry : Entry) :
    Except Stop (List PrincipalKey) :=
  (keys entry).mapError fun
    | .error e => refuse env realm code (e.display P.debugStr)
    | .panic => .panic

def AppState.principalKeys (app : AppState) (principal : Str) : Option (List PrincipalKey) :=
  ((app.findPrincipal principal).bind app.entryAt).bind fun e => (keys e).toOption

/-- A ticket about to be sent: its protected part and the key that seals it. -/
structure Issued where
  part : EncTicketPart
  key : PrincipalKey
  rep : KdcRep

def respond (success : KdcRep → KdcResponse) : Except Stop KdcRep → Option KdcResponse
  | .ok rep => some (success rep)
  | .error (.refuse e) => some (.error e)
  | .error .panic => none

theorem keysOrStop_eq_ok {P : Platform} {env : Env} {realm : Str} {code : Int32} {entry : Entry}
    {ks : List PrincipalKey} : keysOrStop P env realm code entry = .ok ks ↔ keys entry = .ok ks :=
  Outcome.mapError_eq_ok

theorem AppState.principalKeys_eq_some {app : AppState} {principal : Str}
    {ks : List PrincipalKey} :
    app.principalKeys principal = some ks ↔
      ∃ dn e, app.findPrincipal principal = some dn ∧ app.entryAt dn = some e ∧
        keys e = .ok ks := by
  simp only [principalKeys, Option.bind_eq_some_iff, Outcome.toOption_eq_some]
  constructor
  · rintro ⟨e, ⟨dn, hdn, he⟩, hk⟩
    exact ⟨dn, e, hdn, he, hk⟩
  · rintro ⟨dn, e, hdn, he, hk⟩
    exact ⟨e, ⟨dn, hdn, he⟩, hk⟩

theorem single_eq_some {found : Except StoreError (List Dn)} {dn : Dn} :
    single found = some dn ↔ found = .ok [dn] := by
  unfold single
  split <;> simp_all

theorem present_eq_some {read : Except StoreError (Option Entry)} {e : Entry} :
    present read = some e ↔ read = .ok (some e) := by
  unfold present
  split <;> simp_all

end IronDirectory.Kdc
