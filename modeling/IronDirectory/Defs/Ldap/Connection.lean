import IronDirectory.Defs.Base.Run
import IronDirectory.Defs.Ldap.Session

namespace IronDirectory.Ldap

open Base Crypto Kerberos Naming Storage Kdc

def berMessageLen : Bytes → Except Unit (Option Nat)
  | [] => .ok none
  | tag :: rest =>
    if tag ≠ 0x30 then .error ()
    else
      match rest with
      | [] => .ok none
      | first :: body =>
        if first.toNat < 0x80 then .ok (some (2 + first.toNat))
        else
          let n := first.toNat % 0x80
          if n = 0 then .error ()
          else if body.length < n then .ok none
          else .ok (some ((2 + n + Bytes.ofBe (body.take n)) % 2 ^ 64))

def splitMessage (buf : Bytes) : Except Unit (Option (Bytes × Bytes)) :=
  match berMessageLen buf with
  | .error e => .error e
  | .ok none => .ok none
  | .ok (some total) =>
    if total ≤ buf.length then .ok (some (buf.take total, buf.drop total)) else .ok none

def splitSized (buf : Bytes) : Except Unit (Option (Bytes × Bytes)) :=
  let len := Bytes.ofBe (buf.take 4)
  if 4 ≤ buf.length ∧ 4 + len ≤ buf.length then
    .ok (some ((buf.drop 4).take len, buf.drop (4 + len)))
  else .ok none

/-- Reads until a whole frame is there.  The chunks are what the stream
delivers, `none` an I/O error; their end, or an empty one, is the end of the
stream. -/
def readFramed (split : Bytes → Except Unit (Option (Bytes × Bytes))) (buf : Bytes)
    (chunks : List (Option Bytes)) : Except Unit (Option (Bytes × Bytes)) :=
  match split buf with
  | .error e => .error e
  | .ok (some frame) => .ok (some frame)
  | .ok none =>
    match chunks with
    | [] | some [] :: _ => if buf = [] then .ok none else .error ()
    | none :: _ => .error ()
    | some (b :: bs) :: rest => readFramed split (buf ++ b :: bs) rest

structure Message (α : Type) where
  messageId : UInt32
  protocolOp : α

inductive Request (R : Type)
  | unbind
  | bind (req : BindRequest)
  | startTls
  | whoAmI
  | extended
  | directory (req : R)
  | ignored

structure ExtendedResponse where
  resultCode : ResultCode
  diagnosticMessage : Str
  responseName : Option Bytes
  responseValue : Option Bytes

inductive Response (A : Type)
  | bind (resp : BindResponse)
  | extended (resp : ExtendedResponse)
  | directory (resp : A)

/-- What a connection is served with: the message codec, the directory
operations (none when one panics), and whether StartTLS is configured. -/
structure Server (R A : Type) extends Provider where
  decode : Bytes → Except Str (Message (Request R))
  encode : Message (Response A) → Except Str Bytes
  directory : Store → Option Str → R → Option (List A)
  startTls : Bool

inductive Frame (c : Cipher)
  | bare (bytes : Bytes)
  | wrapped (token : WrapToken c)

def Frame.bytes {c : Cipher} : Frame c → Bytes
  | .bare b => b
  | .wrapped w => Bytes.be 4 w.bytes.length ++ w.bytes

structure BindEvent where
  request : BindRequest
  store : Store
  env : Env
  before : SaslState
  code : ResultCode
  identity : Option Str
  accepted : Option Context

inductive Event (c : Cipher)
  | bind (e : BindEvent)
  | accepted (ctx : Context)
  | challenge (token : WrapToken c)
  | frame (f : Frame c)

structure Conn (c : Cipher) where
  tls : Bool
  buf : Bytes
  sasl : SaslState
  boundIdentity : Option Str
  isOpen : Bool
  history : List (Event c)

def Conn.start (c : Cipher) : Conn c := ⟨false, [], .none, none, true, []⟩

/-- What one round of the loop meets: the store it locks, its clock and draws,
what the stream delivers, and which writes and handshakes succeed. -/
structure Input where
  store : Store
  env : Env
  chunks : List (Option Bytes)
  writes : Nat → Bool
  handshake : Bool

section Loop

variable {R A : Type} (server : Server R A)

def readNextMessage (sasl : SaslState) (buf : Bytes) (chunks : List (Option Bytes)) :
    Except Unit (Option (Message (Request R) × Bytes)) :=
  match sasl with
  | .securityLayerActive key enctype _ _ =>
    if server.fips = false then .error ()
    else
      match readFramed splitSized buf chunks with
      | .error e => .error e
      | .ok none => .ok none
      | .ok (some (token, rest)) =>
        match Gssapi.unwrap server.platform.cipher enctype key 24 token with
        | .error _ => .error ()
        | .ok plain =>
          match server.decode plain with
          | .error _ => .error ()
          | .ok msg => .ok (some (msg, rest))
  | _ =>
    match readFramed splitMessage buf chunks with
    | .error e => .error e
    | .ok none => .ok none
    | .ok (some (bytes, rest)) =>
      match server.decode bytes with
      | .error _ => .error ()
      | .ok msg => .ok (some (msg, rest))

def sendResponse (draw : Nat) (sasl : SaslState) (msg : Message (Response A)) :
    Option (Frame server.platform.cipher × SaslState) :=
  match sasl with
  | .securityLayerActive key enctype isSealed seq =>
    if server.fips = false then none
    else
      match server.encode msg with
      | .error _ => none
      | .ok plain =>
        match wrapToken server.platform.cipher draw enctype key isSealed seq plain with
        | .error _ => none
        | .ok w => some (.wrapped w, .securityLayerActive key enctype isSealed (seq + 1))
  | other =>
    match server.encode msg with
    | .error _ => none
    | .ok bytes => some (.bare bytes, other)

namespace Conn

variable {server}

def close (s : Conn server.platform.cipher) : Conn server.platform.cipher :=
  { s with isOpen := false }

end Conn

def sendVia (i : Input) (n : Nat) (via : SaslState) (msg : Message (Response A))
    (s : Conn server.platform.cipher) : Conn server.platform.cipher × SaslState :=
  match sendResponse server (i.env.draw (n + 2)) via msg with
  | none => (s.close, via)
  | some (f, via') => ({ s with history := s.history ++ [.frame f], isOpen := i.writes n }, via')

def send (i : Input) (n : Nat) (msg : Message (Response A)) (s : Conn server.platform.cipher) :
    Conn server.platform.cipher :=
  let (s', sasl) := sendVia server i n s.sasl msg s
  { s' with sasl := sasl }

def sendAll (i : Input) (messageId : UInt32) :
    Nat → List (Response A) → Conn server.platform.cipher → Conn server.platform.cipher
  | _, [], s => s
  | n, r :: rs, s =>
    let s' := send server i n ⟨messageId, r⟩ s
    if s'.isOpen then sendAll i messageId (n + 1) rs s' else s'

def bindEvents (i : Input) (req : BindRequest) (before : SaslState)
    (out : BindOutcome server.platform.cipher) : List (Event server.platform.cipher) :=
  .bind ⟨req, i.store, i.env, before, out.response.resultCode, out.identity, out.accepted⟩ ::
    ((out.accepted.map Event.accepted).toList ++ (out.challenge.map Event.challenge).toList)

/-- A bind is answered in a copy of the state it arrived in; the copy's counter
is not kept. -/
def bindStep (i : Input) (messageId : UInt32) (req : BindRequest)
    (s : Conn server.platform.cipher) : Conn server.platform.cipher :=
  match handleBind server.toProvider i.env i.store req s.sasl with
  | none => s.close
  | some out =>
    let s' := { s with
      sasl := out.sasl
      boundIdentity :=
        if out.response.resultCode = .saslBindInProgress then s.boundIdentity else out.identity
      history := s.history ++ bindEvents server i req s.sasl out }
    (sendVia server i 0 s.sasl ⟨messageId, .bind out.response⟩ s').1

def startTlsOid : Bytes := "1.3.6.1.4.1.1466.20037".toUTF8.data.toList

def startTlsResult (tls configured : Bool) : ResultCode × Str :=
  if tls then (.operationsError, "already TLS")
  else if configured then (.success, "")
  else (.protocolError, "StartTLS is not configured (no TLS cert/key)")

def startTlsStep (i : Input) (messageId : UInt32) (s : Conn server.platform.cipher) :
    Conn server.platform.cipher :=
  let r := startTlsResult s.tls server.startTls
  let s' := send server i 0 ⟨messageId, .extended ⟨r.1, r.2, some startTlsOid, none⟩⟩ s
  if r.1 = .success ∧ s'.isOpen then
    if i.handshake then { s' with tls := true, buf := [] } else s'.close
  else s'

def dispatch (i : Input) (msg : Message (Request R)) (s : Conn server.platform.cipher) :
    Conn server.platform.cipher :=
  match msg.protocolOp with
  | .unbind => s.close
  | .bind req => bindStep server i msg.messageId req s
  | .startTls => startTlsStep server i msg.messageId s
  | .whoAmI =>
    send server i 0 ⟨msg.messageId,
      .extended ⟨.success, "", none, some (s.boundIdentity.getD []).toUtf8⟩⟩ s
  | .extended =>
    send server i 0 ⟨msg.messageId,
      .extended ⟨.protocolError, "extended operations are not implemented yet", none, none⟩⟩ s
  | .directory req =>
    match server.directory i.store s.boundIdentity req with
    | none => s.close
    | some rs => sendAll server i msg.messageId 0 (rs.map .directory) s
  | .ignored => s

def advance (i : Input) (s : Conn server.platform.cipher) : Conn server.platform.cipher :=
  match readNextMessage server s.sasl s.buf i.chunks with
  | .error _ | .ok none => s.close
  | .ok (some (msg, rest)) => dispatch server i msg { s with buf := rest }

def Step (s : Conn server.platform.cipher) (i : Input) (t : Conn server.platform.cipher) : Prop :=
  s.isOpen = true ∧ advance server i s = t

end Loop

end IronDirectory.Ldap
