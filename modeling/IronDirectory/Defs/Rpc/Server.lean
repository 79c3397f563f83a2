import IronDirectory.Defs.Rpc.Lsarpc
import IronDirectory.Defs.Rpc.Netlogon
import IronDirectory.Defs.Rpc.Pdu

namespace IronDirectory.Rpc

open Base Kdc

structure AppState where
  domainInfo : DomainInfo
  samr : Samr.SamrState
  netlogon : Netlogon.NetlogonState

inductive BoundInterface
  | lsarpc
  | samr
  | netlogon
  deriving DecidableEq

def BoundInterface.ofSyntax (abstractSyntax : Bytes) : Option BoundInterface :=
  if abstractSyntax = Uuid.lsarpcSyntax then some .lsarpc
  else if abstractSyntax = Uuid.samrSyntax then some .samr
  else if abstractSyntax = Uuid.netlogonSyntax then some .netlogon
  else none

structure Connection where
  bound : Option (UInt16 × BoundInterface)
  netlogonSession : Netlogon.Session

def Connection.new : Connection := ⟨none, .default⟩

def lsarpcDispatch (info : DomainInfo) (opnum : UInt16) (stub : Bytes) : Except CallError Bytes :=
  if opnum = Lsarpc.opnumOpenPolicy2 then .ok Lsarpc.openPolicy2
  else if opnum = Lsarpc.opnumClose then .ok Lsarpc.close
  else if opnum = Lsarpc.opnumQueryInformationPolicy2 then
    Outcome.require (Lsarpc.queryInformationPolicy2 stub info) .malformed
  else .error .unknownOpnum

def dispatch (app : AppState) (session : Netlogon.Session) (iface : BoundInterface)
    (opnum : UInt16) (stub : Bytes) :
    Except (Fault CallError) Bytes × Netlogon.Session × AppState :=
  match iface with
  | .lsarpc => ((lsarpcDispatch app.domainInfo opnum stub).mapError .error, session, app)
  | .samr =>
    let (result, store) := Samr.dispatch app.samr app.domainInfo.domainSid opnum stub
    (result.mapError .error, session, { app with samr := { app.samr with store } })
  | .netlogon =>
    let (result, session) := Netlogon.dispatch app.netlogon session opnum stub
    (result, session, app)

def negotiate (bound : Option (UInt16 × BoundInterface)) :
    List Pdu.BindCtxItem → Option (UInt16 × BoundInterface) × List Pdu.CtxResult
  | [] => (bound, [])
  | item :: items =>
    match BoundInterface.ofSyntax item.abstractSyntax with
    | some iface =>
      let (bound, results) := negotiate (some (item.ctxId, iface)) items
      (bound, .accept :: results)
    | none =>
      let (bound, results) := negotiate bound items
      (bound, .rejectAbstractSyntaxNotSupported :: results)

/-- What a PDU leads to: the PDU sent back, the connection's next state, and
the services' state.  A call that panics ends the connection. -/
abbrev Answer := Option (Bytes × Connection × AppState)

def serve (app : AppState) (conn : Connection) (header : Pdu.PduHeader) (req : Pdu.RequestBody)
    (iface : BoundInterface) : Answer :=
  let (result, session, app) := dispatch app conn.netlogonSession iface req.opnum req.stubData
  let conn := { conn with netlogonSession := session }
  match result with
  | .ok stub => some (Pdu.buildResponse header.callId req.ctxId stub, conn, app)
  | .error (.error .unknownOpnum) =>
    some (Pdu.buildFault header.callId req.ctxId Pdu.faultOpRngError, conn, app)
  | .error (.error .malformed) =>
    some (Pdu.buildFault header.callId req.ctxId Pdu.faultNdr, conn, app)
  | .error .panic => none

def handleBind (app : AppState) (conn : Connection) (header : Pdu.PduHeader) (body : Bytes) :
    Answer := do
  let items ← Pdu.parseBindBody body
  let (bound, results) := negotiate conn.bound items
  return (Pdu.buildBindAck header.callId 4280 1 results, { conn with bound }, app)

def handleRequest (app : AppState) (conn : Connection) (header : Pdu.PduHeader) (body : Bytes) :
    Answer := do
  let req ← Pdu.parseRequestBody body
  let unknown := (Pdu.buildFault header.callId req.ctxId Pdu.faultUnkIf, conn, app)
  match conn.bound with
  | some (ctxId, iface) =>
    if ctxId = req.ctxId then serve app conn header req iface else some unknown
  | none => some unknown

/-- One round of `handle_connection`; `none` ends its loop. -/
def handlePdu (app : AppState) (conn : Connection) (pdu : Bytes) : Answer :=
  match Pdu.parseHeader pdu with
  | .error _ => none
  | .ok (header, _) =>
    if header.ptype = Pdu.ptypeBind then handleBind app conn header (pdu.drop 16)
    else if header.ptype = Pdu.ptypeRequest then handleRequest app conn header (pdu.drop 16)
    else none

end IronDirectory.Rpc
