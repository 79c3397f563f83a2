import IronDirectory.Defs.Base.TextLaws
import IronDirectory.Defs.Base.Utf8Laws
import IronDirectory.Defs.Kdc.KpasswdLaws
import IronDirectory.Defs.Kerberos.Compact

namespace IronDirectory.Kdc.Kpasswd

open Base Crypto Kerberos Naming Storage Outcome

section Frame

inductive Composed (P : Platform) : Bytes → Bytes → Prop
  | error (err : KrbError) : Composed P [] ((P.der.krbError.encode err).toOption.getD [])
  | sealedWith {rep : ApRep} {msg : KrbPriv} {apRep body : Bytes} :
    P.der.apRep.encode rep = .ok apRep → P.der.krbPriv.encode msg = .ok body →
    Composed P apRep body

structure SplitsAs (reply apRep body : Bytes) : Prop where
  parts : reply.drop 6 = apRep ++ body
  message : Bytes.ofBe (reply.take 2) = reply.length
  apRep : Bytes.ofBe ((reply.drop 4).take 2) = apRep.length

def Framed (P : Platform) (reply : Bytes) : Prop :=
  ∃ apRep body, Composed P apRep body ∧ SplitsAs reply apRep body

theorem length_frame (apRep body : Bytes) :
    (frame apRep body).length = 6 + apRep.length + body.length := by
  simp only [frame, List.length_append, Bytes.length_be]

theorem take_frame (apRep body : Bytes) :
    (frame apRep body).take 2 = Bytes.be 2 (frame apRep body).length := by
  rw [length_frame, frame, List.append_assoc, List.append_assoc, List.append_assoc,
    List.take_left' (Bytes.length_be 2 _)]

theorem drop_four_frame (apRep body : Bytes) :
    (frame apRep body).drop 4 = Bytes.be 2 apRep.length ++ (apRep ++ body) := by
  have hhead : (Bytes.be 2 (6 + apRep.length + body.length) ++
      Bytes.be 2 versionChange.toNat).length = 4 := by
    rw [List.length_append, Bytes.length_be, Bytes.length_be]
  rw [frame, List.append_assoc, List.append_assoc, List.drop_left' hhead]

theorem splitsAs_frame_iff (apRep body : Bytes) :
    SplitsAs (frame apRep body) apRep body ↔ (frame apRep body).length < 65536 := by
  constructor
  · intro h
    have hmessage := h.message
    rw [take_frame, Bytes.ofBe_be] at hmessage
    rw [← hmessage]
    exact Nat.mod_lt _ (by decide)
  · intro hlen
    have hparts := length_frame apRep body
    refine ⟨?_, ?_, ?_⟩
    · rw [← List.drop_drop (i := 2) (j := 4), drop_four_frame,
        List.drop_left' (Bytes.length_be 2 _)]
    · rw [take_frame, Bytes.ofBe_be_of_lt hlen]
    · rw [drop_four_frame, List.take_left' (Bytes.length_be 2 _),
        Bytes.ofBe_be_of_lt (lt_of_le_of_lt (by omega) hlen)]

theorem sealedReply_composed {P : Platform} {env : Env} {auth : Authenticated} {seq : UInt32}
    {addr : IpAddr} {code : ResultCode} {text : Str} {reply : Bytes}
    (h : sealedReply P env auth seq addr code text = .ok reply) :
    ∃ apRep body, Composed P apRep body ∧ reply = frame apRep body := by
  simp only [sealedReply, bind_eq_ok, pure_eq_ok] at h
  obtain ⟨_, -, _, -, apRep, hrep, _, -, _, -, body, hbody, rfl⟩ := h
  exact ⟨apRep, body, .sealedWith hrep hbody, rfl⟩

theorem handle_composed {P : Platform} {env : Env} {app : AppState} {request : Bytes}
    {addr : IpAddr} {reply : Bytes} (h : (handle P env app request addr).1 = some reply) :
    ∃ apRep body, Composed P apRep body ∧ reply = frame apRep body := by
  rw [handle] at h
  split at h
  · cases h
  · cases h
    exact ⟨_, _, .error _, rfl⟩
  · next auth outcome _ =>
    change some _ = some reply at h
    rw [Option.some.injEq] at h
    split at h
    · next b hseal =>
      rw [← h]
      exact sealedReply_composed hseal
    · rw [← h]
      exact ⟨_, _, .error _, rfl⟩

theorem framed_iff {P : Platform} {env : Env} {app : AppState} {request : Bytes}
    {addr : IpAddr} {reply : Bytes} (h : (handle P env app request addr).1 = some reply) :
    Framed P reply ↔ reply.length < 65536 := by
  obtain ⟨apRep, body, hcomposed, rfl⟩ := handle_composed h
  constructor
  · rintro ⟨apRep', body', -, hsplits⟩
    have hmessage := hsplits.message
    rw [take_frame, Bytes.ofBe_be] at hmessage
    rw [← hmessage]
    exact Nat.mod_lt _ (by decide)
  · intro hlen
    exact ⟨apRep, body, hcomposed, (splitsAs_frame_iff apRep body).mpr hlen⟩

end Frame

section Limits

def limit : Nat := 7000

def Short (s : Str) : Prop := s.toUtf8.length ≤ limit

instance (s : Str) : Decidable (Short s) := inferInstanceAs (Decidable (_ ≤ _))

def textLimit : Nat := 4 * limit + 200

structure TerseCodec {α : Type} (c : Codec α) : Prop where
  decode : ∀ {b e}, c.decode b = .error e → Short e
  encode : ∀ {a e}, c.encode a = .error e → Short e

structure Sized (P : Platform) : Prop where
  krbError : ∀ {env : Env} {realm text : Str} {data b : Bytes}, realm.toUtf8.length < 2 ^ 24 →
    text.toUtf8.length < 2 ^ 24 → data.length < 2 ^ 24 →
    P.der.krbError.encode (buildError (env.clock.reading 9) krbErrGeneric realm
      (stringToPrincipalName "kadmin/changepw") (some text) (some data)) = .ok b →
    b.length ≤ realm.toUtf8.length + text.toUtf8.length + data.length + 200
  krbError_ge : ∀ {err : KrbError} {text : GeneralString} {data b : Bytes},
    err.eText = some text → err.eData = some data → P.der.krbError.encode err = .ok b →
    text.bytes.length + data.length ≤ b.length
  encApRepPart : ∀ {ctime cusec : Int} {seq : UInt32} {k : Nat} {b : Bytes}, TimeOk ctime →
    cusec.natAbs < 256 ^ k → k < 2 ^ 24 →
    P.der.encApRepPart.encode ⟨ctime, cusec, none, some seq⟩ = .ok b → b.length ≤ k + 100
  apRep : ∀ {e : Enctype} {cipher b : Bytes}, cipher.length < 2 ^ 24 →
    P.der.apRep.encode ⟨5, 15, e.etypeNumber, none, cipher⟩ = .ok b → b.length ≤ cipher.length + 100
  encKrbPrivPart : ∀ {data : Bytes} {env : Env} {seq : UInt32} {addr : IpAddr} {b : Bytes},
    data.length < 2 ^ 24 →
    P.der.encKrbPrivPart.encode ⟨data, some (now (env.clock.reading 1)).1,
      some (now (env.clock.reading 1)).2, some seq, some (hostAddress addr), none⟩ = .ok b →
    b.length ≤ data.length + 200
  krbPriv : ∀ {e : Enctype} {cipher b : Bytes}, cipher.length < 2 ^ 24 →
    P.der.krbPriv.encode ⟨5, 21, e.etypeNumber, none, cipher⟩ = .ok b →
    b.length ≤ cipher.length + 100
  encrypt : ∀ {s e k u p c}, P.cipher.encrypt s e k u p = .ok c → c.length ≤ p.length + 100
  encrypt_error : ∀ {s e k u p err}, P.cipher.encrypt s e k u p = .error err → Short err.display
  randomBytes_error : ∀ {s n err}, P.cipher.randomBytes s n = .error err → Short err.display
  stringToKey_error : ∀ {e pass salt i err}, P.cipher.stringToKey e pass salt i = .error err →
    Short err.display
  apReq_text : TerseCodec P.der.apReq
  krbPriv_text : TerseCodec P.der.krbPriv
  encTicketPart_text : TerseCodec P.der.encTicketPart
  authenticator_text : TerseCodec P.der.authenticator
  encKrbPrivPart_text : TerseCodec P.der.encKrbPrivPart
  chgPwdData_text : TerseCodec P.der.chgPwdData
  encApRepPart_text : TerseCodec P.der.encApRepPart
  apRep_text : TerseCodec P.der.apRep

/-- The names in the messages of a request, sealed or not, are short, and the
authenticator's microseconds are no longer. -/
structure TerseRequest (P : Platform) (request : Bytes) : Prop where
  service : ∀ {r}, parse P request = .ok r →
    Short (principalNameToString r.apReq.ticket.sname) ∧ Short (realmToString r.apReq.ticket.realm)
  client : ∀ {r e k b part}, parse P request = .ok r →
    P.cipher.decrypt e k usageTicket r.apReq.ticket.encPart.cipher = .ok b →
    P.der.encTicketPart.decode b = .ok part →
    Short (principalNameToString part.cname) ∧ Short (realmToString part.crealm)
  cusec : ∀ {r e k b a}, parse P request = .ok r →
    P.cipher.decrypt e k usageApReqAuth r.apReq.authenticator.cipher = .ok b →
    P.der.authenticator.decode b = .ok a → a.cusec.natAbs < 256 ^ limit
  target : ∀ {r e k b part d}, parse P request = .ok r →
    P.cipher.decrypt e k usageKrbPriv r.priv.encPart.cipher = .ok b →
    P.der.encKrbPrivPart.decode b = .ok part → P.der.chgPwdData.decode part.userData = .ok d →
    (∀ n ∈ d.targname, Short (principalNameToString n)) ∧ ∀ x ∈ d.targrealm, Short (realmToString x)

/-- The realm, the names of the entries the indexes lead to, and the texts of the
directory's errors about them are short. -/
structure TerseDirectory (P : Platform) (app : AppState) : Prop where
  realm : Short app.realm
  lookup_error : ∀ {attr value e}, app.store.lookupByIndex app.baseDn attr value = .error e →
    Short (e.display P.debugStr)
  lookup : ∀ {attr value dns}, app.store.lookupByIndex app.baseDn attr value = .ok dns →
    dns.length < 10 ^ 20 ∧ ∀ dn ∈ dns, Short dn.display
  read_error : ∀ {attr value dn e}, app.store.lookupByIndex app.baseDn attr value = .ok [dn] →
    app.store.getEntry dn = .error e → Short (e.display P.debugStr)
  write_error : ∀ {attr value dn entry e},
    app.store.lookupByIndex app.baseDn attr value = .ok [dn] →
    app.store.putEntry dn entry app.indexSpec = .error e → Short (e.display P.debugStr)

end Limits

section Texts

theorem length_toUtf8_append (s t : Str) :
    (s ++ t).toUtf8.length = s.toUtf8.length + t.toUtf8.length := by
  rw [Str.toUtf8, List.flatMap_append, List.length_append]
  rfl

theorem length_toUtf8_le (s : Str) : s.toUtf8.length ≤ 4 * s.length := by
  induction s with
  | nil => exact le_rfl
  | cons c s ih =>
    have hc : (String.utf8EncodeChar c).length ≤ 4 := by
      rw [String.length_utf8EncodeChar]
      exact c.utf8Size_le_four
    rw [Str.toUtf8, List.flatMap_cons, List.length_append, List.length_cons]
    change (String.utf8EncodeChar c).length + (Str.toUtf8 s).length ≤ _
    omega

def Modest (r : Refusal) : Prop := r.text.toUtf8.length ≤ textLimit

def ModestFault (f : Fault Refusal) : Prop := ∀ r, f = .error r → Modest r

theorem modestFault_error {r : Refusal} (h : Modest r) : ModestFault (.error r) := by
  intro r' hr
  cases hr
  exact h

theorem modest_append {code : ResultCode} {lit s : Str} (hlit : lit.toUtf8.length ≤ 100)
    (hs : Short s) : Modest ⟨code, lit ++ s⟩ := by
  have hs' : s.toUtf8.length ≤ limit := hs
  change (lit ++ s).toUtf8.length ≤ textLimit
  rw [length_toUtf8_append]
  unfold textLimit
  omega

theorem modest_literal {code : ResultCode} {lit : Str} (hlit : lit.toUtf8.length ≤ 100) :
    Modest ⟨code, lit⟩ :=
  hlit.trans (by decide)

variable {P : Platform}

theorem parse_modest (hP : Sized P) (request : Bytes) : Errors Modest (parse P request) := by
  refine errors_bind (errors_ensure (modest_literal (by decide))) fun _ => ?_
  refine errors_bind (errors_ensure (modest_literal (by decide))) fun _ => ?_
  refine errors_bind (errors_ensure ?_) fun _ => ?_
  · apply modest_append (by decide)
    have hle := length_toUtf8_le (Bytes.toHex (Bytes.be 2
      (UInt16.ofNat (Bytes.ofBe ((request.drop 2).take 2))).toNat))
    have hlen : (Bytes.toHex (Bytes.be 2
        (UInt16.ofNat (Bytes.ofBe ((request.drop 2).take 2))).toNat)).length = 4 := by
      simp [Bytes.toHex, Bytes.be, Bytes.le]
    rw [hlen] at hle
    exact hle.trans (by decide)
  have hap : Errors Short (P.der.apReq.decode ((request.drop 6).take
      (Bytes.ofBe ((request.drop 4).take 2)))) := fun _ he => hP.apReq_text.decode he
  have hpriv : Errors Short (P.der.krbPriv.decode (request.drop
      (6 + Bytes.ofBe ((request.drop 4).take 2)))) := fun _ he => hP.krbPriv_text.decode he
  refine errors_bind (hap.mapError fun _ he => modest_append (by decide) he) fun _ => ?_
  refine errors_bind (hpriv.mapError fun _ he => modest_append (by decide) he) fun _ => ?_
  exact errors_pure _

theorem krbtgtKey_modest (app : AppState) (enctype : Enctype) :
    Errors ModestFault (krbtgtKey app enctype) := by
  refine errors_bind (errors_require (modestFault_error (modest_literal (by decide)))) fun _ => ?_
  refine errors_bind (errors_require (modestFault_error (modest_literal (by decide)))) fun _ => ?_
  apply errors_mapError
  intro e
  cases e with
  | error e => exact modestFault_error (modest_literal (by decide))
  | panic =>
    intro r hr
    cases hr

theorem privKey_modest (ticket : EncTicketPart) (enctype : Enctype) (a : Authenticator) :
    Errors ModestFault (privKey ticket enctype a) := by
  rw [privKey]
  split
  · exact errors_ok _
  · refine errors_bind (errors_require (modestFault_error (modest_literal (by decide)))) fun _ => ?_
    exact errors_pure _

theorem wrongService_modest {sname realm own : Str} (hsname : Short sname) (hrealm : Short realm)
    (hown : Short own) : Modest ⟨.authError,
      "ticket is for " ++ principalFqn sname realm ++ ", not kadmin/changepw@" ++ own⟩ := by
  have h₁ : sname.toUtf8.length ≤ limit := hsname
  have h₂ : realm.toUtf8.length ≤ limit := hrealm
  have h₃ : own.toUtf8.length ≤ limit := hown
  have hfor : (Str.toUtf8 "ticket is for ").length = 14 := by decide
  have hnot : (Str.toUtf8 ", not kadmin/changepw@").length = 22 := by decide
  have hat : (Str.toUtf8 "@").length = 1 := by decide
  change (_ : Str).toUtf8.length ≤ textLimit
  rw [principalFqn, ← List.singleton_append]
  change ((Str.ofString "ticket is for ") ++ (sname ++ ((Str.ofString "@") ++ realm)) ++
    (Str.ofString ", not kadmin/changepw@") ++ own).toUtf8.length ≤ textLimit
  simp only [length_toUtf8_append]
  unfold textLimit
  omega

theorem verifyApReq_modest (hP : Sized P) (env : Env) {app : AppState} (happ : Short app.realm)
    {ap : ApReq} (hsname : Short (principalNameToString ap.ticket.sname))
    (hrealm : Short (realmToString ap.ticket.realm)) :
    Errors ModestFault (verifyApReq P env app ap) := by
  have hlit : ∀ {lit : Str}, lit.toUtf8.length ≤ 100 →
      ModestFault (.error ⟨.authError, lit⟩) := fun h => modestFault_error (modest_literal h)
  have hticket : ∀ b, Errors Short (P.der.encTicketPart.decode b) :=
    fun _ _ he => hP.encTicketPart_text.decode he
  have hauth : ∀ b, Errors Short (P.der.authenticator.decode b) :=
    fun _ _ he => hP.authenticator_text.decode he
  refine errors_bind (errors_ensure (modestFault_error (wrongService_modest hsname hrealm happ)))
    fun _ => ?_
  refine errors_bind (errors_require (hlit (by decide))) fun enctype => ?_
  refine errors_bind (krbtgtKey_modest app enctype) fun key => ?_
  refine errors_bind (errors_mapError fun _ => hlit (by decide)) fun ticketBytes => ?_
  refine errors_bind ((hticket _).mapError fun _ he => modestFault_error
    (modest_append (by decide) he)) fun ticket => ?_
  refine errors_bind (errors_ensure (hlit (by decide))) fun _ => ?_
  refine errors_bind (errors_mapError fun _ => hlit (by decide)) fun authBytes => ?_
  refine errors_bind ((hauth _).mapError fun _ he => modestFault_error
    (modest_append (by decide) he)) fun authenticator => ?_
  refine errors_bind (errors_ensure (hlit (by decide))) fun _ => ?_
  refine errors_bind (errors_ensure (hlit (by decide))) fun _ => ?_
  exact errors_bind (privKey_modest ticket enctype authenticator) fun _ => errors_pure _

theorem openPriv_modest (hP : Sized P) (auth : Authenticated) (msg : KrbPriv) :
    Errors Modest (openPriv P auth msg) := by
  have hpart : ∀ b, Errors Short (P.der.encKrbPrivPart.decode b) :=
    fun _ _ he => hP.encKrbPrivPart_text.decode he
  refine errors_bind (errors_mapError fun _ => modest_literal (by decide)) fun plain => ?_
  refine errors_bind ((hpart _).mapError fun _ he => modest_append (by decide) he) fun part => ?_
  exact errors_pure _

theorem parseChange_modest (hP : Sized P) (version : UInt16) (userData : Bytes) :
    Errors Modest (parseChange P version userData) := by
  have hdata : ∀ b, Errors Short (P.der.chgPwdData.decode b) :=
    fun _ _ he => hP.chgPwdData_text.decode he
  rw [parseChange]
  split
  · exact errors_ok _
  · refine errors_bind ((hdata _).mapError fun _ he => modest_append (by decide) he) fun d => ?_
    exact errors_pure _

theorem change_of_parseChange {version : UInt16} {userData : Bytes} {c : Change}
    (h : parseChange P version userData = .ok c)
    (htarget : ∀ d, P.der.chgPwdData.decode userData = .ok d →
      (∀ n ∈ d.targname, Short (principalNameToString n)) ∧
        ∀ x ∈ d.targrealm, Short (realmToString x)) :
    (∀ n ∈ c.targetName, Short n) ∧ ∀ x ∈ c.targetRealm, Short x := by
  rw [parseChange] at h
  split at h
  · cases h
    simp
  · obtain ⟨d, hd, h⟩ := bind_eq_ok.mp h
    rw [mapError_eq_ok] at hd
    cases h
    obtain ⟨hname, hrealm⟩ := htarget d hd
    simpa using ⟨hname, hrealm⟩

theorem short_getD {o : Option Str} {s : Str} (ho : ∀ n ∈ o, Short n) (hs : Short s) :
    Short (o.getD s) := by
  cases o with
  | none => exact hs
  | some n => exact ho n rfl

theorem length_principalFqn {name realm : Str} (hname : Short name) (hrealm : Short realm) :
    (principalFqn name realm).toUtf8.length ≤ 2 * limit + 1 := by
  have h₁ : name.toUtf8.length ≤ limit := hname
  have h₂ : realm.toUtf8.length ≤ limit := hrealm
  have hat : (Str.toUtf8 ['@']).length = 1 := by decide
  rw [principalFqn, ← List.singleton_append, length_toUtf8_append, length_toUtf8_append]
  omega

theorem authorize_modest (app : AppState) {auth : Authenticated} (hclient : Short auth.client)
    (hcrealm : Short auth.clientRealm) {targetName target : Str}
    (htarget : target.toUtf8.length ≤ 2 * limit + 1) :
    Errors Modest (authorize app auth targetName target) := by
  rw [authorize]
  split
  · exact errors_ensure (modest_literal (by decide))
  · apply errors_ensure
    have hrequester := length_principalFqn hclient hcrealm
    have hlit : (Str.toUtf8 " may not set the password of ").length = 29 := by decide
    change (principalFqn auth.client auth.clientRealm ++
      Str.ofString " may not set the password of " ++ target).toUtf8.length ≤ textLimit
    rw [length_toUtf8_append, length_toUtf8_append]
    unfold textLimit
    omega

theorem findTargetIn_modest {app : AppState} (hdir : TerseDirectory P app) {principal : Str}
    (hprincipal : principal.toUtf8.length ≤ 2 * limit + 1) {queries : List (Str × Str)}
    (hqueries : ∀ q ∈ queries, q.2.toUtf8.length ≤ 2 * limit + 1) :
    Errors Modest (findTargetIn P app principal queries) := by
  induction queries with
  | nil =>
    apply errors_error
    have hlit : (Str.toUtf8 "no such principal ").length = 18 := by decide
    change (Str.ofString "no such principal " ++ principal).toUtf8.length ≤ textLimit
    rw [length_toUtf8_append]
    unfold textLimit
    omega
  | cons q queries ih =>
    obtain ⟨attr, value⟩ := q
    have hvalue : value.toUtf8.length ≤ 2 * limit + 1 := hqueries (attr, value) List.mem_cons_self
    rw [findTargetIn]
    split
    · exact ih fun q hq => hqueries q (List.mem_cons_of_mem _ hq)
    · exact errors_ok _
    · next dns _ _ hdns =>
      apply errors_error
      have hcount := length_toUtf8_le (Str.ofNat dns.length)
      have hdigits : (Str.ofNat dns.length).length ≤ 20 :=
        (Nat.length_toDigits_le_iff (by decide) (by decide)).mpr (hdir.lookup hdns).1
      have hlit : (Str.toUtf8 " entries are named ").length = 19 := by decide
      change (Str.ofNat dns.length ++ Str.ofString " entries are named " ++ value).toUtf8.length ≤
        textLimit
      rw [length_toUtf8_append, length_toUtf8_append]
      unfold textLimit
      omega
    · next e he =>
      exact errors_error ((hdir.lookup_error he).trans (by decide))

theorem lookup_of_findTargetIn {app : AppState} {principal : Str} {queries : List (Str × Str)}
    {dn : Dn} (h : findTargetIn P app principal queries = .ok dn) :
    ∃ attr value, app.store.lookupByIndex app.baseDn attr value = .ok [dn] := by
  induction queries with
  | nil => cases h
  | cons q queries ih =>
    obtain ⟨attr, value⟩ := q
    rw [findTargetIn] at h
    split at h
    · exact ih h
    · next hdns =>
      cases h
      exact ⟨attr, value, hdns⟩
    · cases h
    · cases h

theorem setPassword_modest (hP : Sized P) (draw : Nat) (entry : Entry) (name : Str)
    (password : Bytes) :
    Errors (fun e => Modest ⟨.softError, e.display P.debugStr⟩)
      (setPassword P.cipher draw entry name password) := by
  have hcrypto : ∀ c : CryptoError, Short c.display →
      Modest ⟨.softError, (PrincipalError.crypto c).display P.debugStr⟩ := fun c hc =>
    modest_append (by decide) hc
  have hrandom : Errors (fun c => Short c.display) (P.cipher.randomBytes draw minSaltLen) :=
    fun _ hc => hP.randomBytes_error hc
  refine errors_bind (hrandom.mapError hcrypto) fun random => ?_
  refine errors_bind (errors_mapM fun enctype _ => ?_) fun _ => errors_pure _
  have hkey : Errors (fun c => Short c.display)
      (P.cipher.stringToKey enctype password (Bytes.toHex random).toUtf8 none) :=
    fun _ hc => hP.stringToKey_error hc
  exact errors_bind (hkey.mapError hcrypto) fun _ => errors_pure _

theorem change_modest (hP : Sized P) (env : Env) {app : AppState} (hdir : TerseDirectory P app)
    {auth : Authenticated} (hclient : Short auth.client) (hcrealm : Short auth.clientRealm)
    (version : UInt16) {userData : Bytes}
    (hdata : ∀ d, P.der.chgPwdData.decode userData = .ok d →
      (∀ n ∈ d.targname, Short (principalNameToString n)) ∧
        ∀ x ∈ d.targrealm, Short (realmToString x)) :
    Errors Modest (change P env app auth version userData) := by
  refine errors_bind_of_ok (parseChange_modest hP version userData) fun c hc => ?_
  obtain ⟨hname, hrealm⟩ := change_of_parseChange hc hdata
  have htargetRealm : Short (c.targetRealm.getD auth.clientRealm) := short_getD hrealm hcrealm
  have htargetName : Short (c.targetName.getD auth.client) := short_getD hname hclient
  have htarget := length_principalFqn htargetName hdir.realm
  refine errors_bind (errors_ensure ?_) fun _ => ?_
  · have hle : (c.targetRealm.getD auth.clientRealm).toUtf8.length ≤ limit := htargetRealm
    have hfront : (Str.toUtf8 "target realm ").length = 13 := by decide
    have hback : (Str.toUtf8 " is not served here").length = 19 := by decide
    change (Str.ofString "target realm " ++ c.targetRealm.getD auth.clientRealm ++
      Str.ofString " is not served here").toUtf8.length ≤ textLimit
    rw [length_toUtf8_append, length_toUtf8_append]
    unfold textLimit
    omega
  refine errors_bind (authorize_modest app hclient hcrealm htarget) fun _ => ?_
  have hqueries : ∀ q ∈ [(attrPrincipalName, principalFqn (c.targetName.getD auth.client) app.realm),
      ("samaccountname", c.targetName.getD auth.client)], q.2.toUtf8.length ≤ 2 * limit + 1 := by
    simp only [List.forall_mem_cons]
    exact ⟨htarget, htargetName.trans (by decide), by simp⟩
  refine errors_bind_of_ok (findTargetIn_modest hdir htarget hqueries) fun dn hdn => ?_
  obtain ⟨attr, value, hlookup⟩ := lookup_of_findTargetIn hdn
  have hread : Errors (fun e : StoreError => Short (e.display P.debugStr))
      (app.store.getEntry dn) := fun _ he => hdir.read_error hlookup he
  have hwrite : ∀ entry, Errors (fun e : StoreError => Short (e.display P.debugStr))
      (app.store.putEntry dn entry app.indexSpec) := fun _ _ he => hdir.write_error hlookup he
  refine errors_bind (hread.mapError fun e he => he.trans (by decide)) fun found => ?_
  refine errors_bind (errors_require ?_) fun entry => ?_
  · have hle : dn.display.toUtf8.length ≤ limit := (hdir.lookup hlookup).2 dn (by simp)
    have hlit : (Str.toUtf8 " vanished").length = 9 := by decide
    change (dn.display ++ Str.ofString " vanished").toUtf8.length ≤ textLimit
    rw [length_toUtf8_append]
    unfold textLimit
    omega
  refine errors_bind (errors_ensure (modest_literal (by decide))) fun _ => ?_
  refine errors_bind ((setPassword_modest hP _ entry _ _).mapError fun _ he => he) fun entry' => ?_
  exact errors_bind ((hwrite entry').mapError fun e he => he.trans (by decide)) fun _ =>
    errors_pure _

end Texts

section Lengths

variable {P : Platform} {env : Env} {app : AppState} {request : Bytes}

theorem length_resultData (code : ResultCode) (text : Str) :
    (resultData code text).length = 2 + text.toUtf8.length := by
  rw [resultData, List.length_append, Bytes.length_be]

theorem length_errorReply_lt (hP : Sized P) (env : Env) (hrealm : Short app.realm) {r : Refusal}
    (hr : Modest r) : (errorReply P env app r).length < 65536 := by
  simp only [Short, Modest, textLimit, limit] at hrealm hr
  have hdata := length_resultData r.code r.text
  rw [errorReply, length_frame, List.length_nil]
  cases hb : P.der.krbError.encode (buildError (env.clock.reading 9) krbErrGeneric app.realm
    (stringToPrincipalName "kadmin/changepw") (some r.text) (some (resultData r.code r.text))) with
  | error e => exact Nat.lt_of_le_of_lt (le_refl 6) (by decide)
  | ok b =>
    have hle := hP.krbError (by omega) (by omega) (by omega) hb
    change 6 + 0 + b.length < 65536
    omega

structure Verified (P : Platform) (ap : ApReq) (auth : Authenticated) : Prop where
  client : ∃ e k b part, P.cipher.decrypt e k usageTicket ap.ticket.encPart.cipher = .ok b ∧
    P.der.encTicketPart.decode b = .ok part ∧ auth.client = principalNameToString part.cname ∧
    auth.clientRealm = realmToString part.crealm
  authenticator : ∃ e k b, P.cipher.decrypt e k usageApReqAuth ap.authenticator.cipher = .ok b ∧
    P.der.authenticator.decode b = .ok auth.authenticator
  time : TimeOk auth.authenticator.ctime

theorem timeOk_of_skew (clock : Clock) {i : Nat} {t : Int}
    (h : (diffSeconds t (now (clock.reading i)).1).natAbs ≤ clockSkewSecs) : TimeOk t := by
  have hnow := clock.sane i
  have hdiv : (diffSeconds t (now (clock.reading i)).1).natAbs =
      ((now (clock.reading i)).1 - t).natAbs / 1000000000 := Int.natAbs_tdiv _ _
  rw [hdiv] at h
  simp only [now, nanosPerSec, clockSkewSecs, TimeOk] at h hnow ⊢
  omega

theorem verified_of_verifyApReq {ap : ApReq} {auth : Authenticated}
    (h : verifyApReq P env app ap = .ok auth) : Verified P ap auth := by
  simp only [verifyApReq, bind_eq_ok, ensure_eq_ok, require_eq_ok, mapError_eq_ok,
    pure_eq_ok] at h
  obtain ⟨_, -, e, -, k, -, b, hb, part, hpart, _, -, c, hc, a, ha, _, -, _, hskew, key, -, rfl⟩ := h
  exact ⟨⟨e, _, b, part, hb, hpart, rfl, rfl⟩, ⟨e, _, c, hc, ha⟩, timeOk_of_skew env.clock hskew⟩

theorem length_sealedReply_lt (hP : Sized P) {auth : Authenticated} {seq : UInt32} {addr : IpAddr}
    {code : ResultCode} {text : Str} {reply : Bytes} (htime : TimeOk auth.authenticator.ctime)
    (hcusec : auth.authenticator.cusec.natAbs < 256 ^ limit) (htext : text.toUtf8.length ≤ textLimit)
    (h : sealedReply P env auth seq addr code text = .ok reply) : reply.length < 65536 := by
  simp only [sealedReply, bind_eq_ok, mapError_eq_ok, pure_eq_ok] at h
  obtain ⟨rep, hrep, repCipher, hrepCipher, apRep, hapRep, part, hpart, privCipher, hprivCipher,
    body, hbody, rfl⟩ := h
  have hdata := length_resultData code text
  have h₁ := hP.encApRepPart htime hcusec (by decide) hrep
  simp only [textLimit, limit] at htext h₁
  have h₂ := hP.encrypt hrepCipher
  have h₃ := hP.apRep (by omega) hapRep
  have h₄ := hP.encKrbPrivPart (by omega) hpart
  have h₅ := hP.encrypt hprivCipher
  have h₆ := hP.krbPriv (by omega) hbody
  rw [length_frame]
  omega

theorem sealedReply_errors (hP : Sized P) {auth : Authenticated} {seq : UInt32} {addr : IpAddr}
    {code : ResultCode} {text : Str} :
    Errors Short (sealedReply P env auth seq addr code text) := by
  have hencrypt : ∀ s e k u p, Errors Short ((P.cipher.encrypt s e k u p).mapError
      CryptoError.display) := by
    intro s e k u p
    have herr : Errors (fun c => Short c.display) (P.cipher.encrypt s e k u p) :=
      fun _ he => hP.encrypt_error he
    exact herr.mapError fun _ he => he
  refine errors_bind (fun _ he => hP.encApRepPart_text.encode he) fun _ => ?_
  refine errors_bind (hencrypt _ _ _ _ _) fun _ => ?_
  refine errors_bind (fun _ he => hP.apRep_text.encode he) fun _ => ?_
  refine errors_bind (fun _ he => hP.encKrbPrivPart_text.encode he) fun _ => ?_
  refine errors_bind (hencrypt _ _ _ _ _) fun _ => ?_
  exact errors_bind (fun _ he => hP.krbPriv_text.encode he) fun _ => errors_pure _

theorem length_result {outcome : Except Refusal Changed} (h : Errors Modest outcome) :
    (result outcome).2.toUtf8.length ≤ textLimit := by
  cases outcome with
  | ok changed =>
    have hlit : (Str.toUtf8 "Password changed").length ≤ textLimit := by decide
    exact hlit
  | error r => exact h r rfl

theorem process_modest (hP : Sized P) (hrequest : TerseRequest P request)
    (hdir : TerseDirectory P app) : Errors ModestFault (process P env app request) := by
  refine errors_bind_of_ok ?_ fun r hr => ?_
  · exact (parse_modest hP request).mapError fun _ he => modestFault_error he
  · obtain ⟨hsname, hrealm⟩ := hrequest.service (mapError_eq_ok.mp hr)
    exact errors_bind (verifyApReq_modest hP env hdir.realm hsname hrealm) fun _ => errors_pure _

theorem outcome_modest (hP : Sized P) (hrequest : TerseRequest P request)
    (hdir : TerseDirectory P app) {auth : Authenticated} {outcome : Except Refusal Changed}
    (h : process P env app request = .ok (auth, outcome)) :
    Errors Modest outcome ∧ TimeOk auth.authenticator.ctime ∧
      auth.authenticator.cusec.natAbs < 256 ^ limit := by
  obtain ⟨r, hr, h⟩ := bind_eq_ok.mp h
  obtain ⟨auth', hauth, h⟩ := bind_eq_ok.mp h
  have hparse := mapError_eq_ok.mp hr
  cases h
  have hverified := verified_of_verifyApReq hauth
  obtain ⟨e, k, b, part, hb, hpart, hclient, hcrealm⟩ := hverified.client
  obtain ⟨hname, hrealm⟩ := hrequest.client hparse hb hpart
  obtain ⟨e', k', b', hb', ha⟩ := hverified.authenticator
  refine ⟨?_, hverified.time, hrequest.cusec hparse hb' ha⟩
  refine errors_bind_of_ok (openPriv_modest hP auth r.priv) fun userData hdata => ?_
  simp only [openPriv, bind_eq_ok, mapError_eq_ok, pure_eq_ok] at hdata
  obtain ⟨plain, hplain, body, hbody, rfl⟩ := hdata
  refine change_modest hP env hdir (hclient ▸ hname) (hcrealm ▸ hrealm) r.version fun d hd => ?_
  exact hrequest.target hparse hplain hbody hd

theorem length_reply_lt (hP : Sized P) (hrequest : TerseRequest P request)
    (hdir : TerseDirectory P app) {addr : IpAddr} {reply : Bytes}
    (h : (handle P env app request addr).1 = some reply) : reply.length < 65536 := by
  rw [handle] at h
  split at h
  · cases h
  · next r hr =>
    cases h
    exact length_errorReply_lt hP env hdir.realm (process_modest hP hrequest hdir _ hr r rfl)
  · next auth outcome hprocess =>
    obtain ⟨houtcome, htime, hcusec⟩ := outcome_modest hP hrequest hdir hprocess
    change some _ = some reply at h
    rw [Option.some.injEq] at h
    split at h
    · next b hseal =>
      rw [← h]
      exact length_sealedReply_lt hP htime hcusec (length_result houtcome) hseal
    · next e hfail =>
      rw [← h]
      have hshort : Short e := sealedReply_errors hP e hfail
      exact length_errorReply_lt hP env hdir.realm (hshort.trans (by decide))

theorem handle_of_wrongService (env : Env) (app : AppState) {r : Request} (hparse : parse P request = .ok r)
    (hservice : ¬ (isChangepw r.apReq.ticket.sname = true ∧
      (realmToString r.apReq.ticket.realm).eqIgnoreAsciiCase app.realm = true)) (addr : IpAddr) :
    handle P env app request addr = (some (errorReply P env app ⟨.authError,
      "ticket is for " ++ principalFqn (principalNameToString r.apReq.ticket.sname)
        (realmToString r.apReq.ticket.realm) ++ ", not kadmin/changepw@" ++ app.realm⟩),
      app.store) := by
  have hverify : verifyApReq P env app r.apReq = .error (.error ⟨.authError,
      "ticket is for " ++ principalFqn (principalNameToString r.apReq.ticket.sname)
        (realmToString r.apReq.ticket.realm) ++ ", not kadmin/changepw@" ++ app.realm⟩) := by
    rw [verifyApReq, ensure, if_neg hservice]
    rfl
  rw [handle, process, hparse]
  simp only [Except.mapError, ok_bind, hverify]
  rfl

theorem le_length_reply (hlawful : P.Lawful) (hP : Sized P) {addr : IpAddr} {reply : Bytes}
    {r : Request} (hparse : parse P request = .ok r)
    (hservice : ¬ (isChangepw r.apReq.ticket.sname = true ∧
      (realmToString r.apReq.ticket.realm).eqIgnoreAsciiCase app.realm = true))
    (h : (handle P env app request addr).1 = some reply) :
    2 * (principalNameToString r.apReq.ticket.sname).toUtf8.length ≤ reply.length := by
  rw [handle_of_wrongService env app hparse hservice] at h
  have hlong : (principalNameToString r.apReq.ticket.sname).toUtf8.length ≤
      (("ticket is for " : Str) ++ principalFqn (principalNameToString r.apReq.ticket.sname)
        (realmToString r.apReq.ticket.realm) ++ ", not kadmin/changepw@" ++
          app.realm).toUtf8.length := by
    rw [principalFqn]
    simp only [length_toUtf8_append]
    omega
  generalize ("ticket is for " : Str) ++ principalFqn _ _ ++ _ ++ _ = text at h hlong
  cases h
  obtain ⟨b, hb, -⟩ := hlawful.der.krbError.exists_encode
    (buildError (env.clock.reading 9) krbErrGeneric app.realm
      (stringToPrincipalName "kadmin/changepw") (some text)
      (some (resultData .authError text))) ⟨by simp [buildError], timeOk_now env.clock 9⟩
  have hge := hP.krbError_ge rfl rfl hb
  have htext : (stringToGstring text).bytes.length = text.toUtf8.length := List.length_map _
  have hdata := length_resultData .authError text
  rw [errorReply, length_frame, hb]
  change _ ≤ 6 + 0 + b.length
  omega

end Lengths

section Reply

/-- Short names in the request and the directory make every reply one a client
can split; a ticket for another service whose name fills half the field makes it
one no client can. -/
theorem reply_framed {P : Platform} (hlawful : P.Lawful) (hP : Sized P) {env : Env}
    {app : AppState} {request : Bytes} {addr : IpAddr} {reply : Bytes}
    (h : (handle P env app request addr).1 = some reply) :
    (TerseRequest P request → TerseDirectory P app → Framed P reply) ∧
    ∀ r, parse P request = .ok r →
      ¬ (isChangepw r.apReq.ticket.sname = true ∧
        (realmToString r.apReq.ticket.realm).eqIgnoreAsciiCase app.realm = true) →
      32768 ≤ (principalNameToString r.apReq.ticket.sname).toUtf8.length → ¬ Framed P reply := by
  rw [framed_iff h]
  constructor
  · intro hrequest hdir
    exact length_reply_lt hP hrequest hdir h
  · intro r hparse hservice hlong
    have hle := le_length_reply hlawful hP hparse hservice h
    omega

theorem parse_frame {P : Platform} {ap : ApReq} {priv : KrbPriv} {apBytes privBytes : Bytes}
    (hap : P.der.apReq.decode apBytes = .ok ap) (hpriv : P.der.krbPriv.decode privBytes = .ok priv)
    (hlen : (frame apBytes privBytes).length < 65536) :
    parse P (frame apBytes privBytes) = .ok ⟨versionChange, ap, priv⟩ := by
  have hsplits := (splitsAs_frame_iff apBytes privBytes).mpr hlen
  have hparts := length_frame apBytes privBytes
  have hversion : ((frame apBytes privBytes).drop 2).take 2 = Bytes.be 2 versionChange.toNat := by
    rw [frame, List.append_assoc, List.append_assoc, List.append_assoc,
      List.drop_left' (Bytes.length_be 2 _), List.take_left' (Bytes.length_be 2 _)]
  have hbody : (frame apBytes privBytes).drop (6 + apBytes.length) = privBytes := by
    rw [← List.drop_drop, hsplits.parts, List.drop_left]
  have hhead : ((frame apBytes privBytes).drop 6).take apBytes.length = apBytes := by
    rw [hsplits.parts, List.take_left]
  have hnumber : UInt16.ofNat (Bytes.ofBe (Bytes.be 2 versionChange.toNat)) = versionChange := by
    decide
  simp only [parse, bind_eq_ok, ensure_eq_ok, mapError_eq_ok, pure_eq_ok, hsplits.message,
    hsplits.apRep, hversion, hnumber, hbody, hhead]
  exact ⟨⟨⟩, by omega, ⟨⟩, ⟨trivial, by omega⟩, ⟨⟩, .inl trivial, ap, hap, priv, hpriv, rfl⟩

theorem terseCodec_code {α : Type} (c : Code α) : TerseCodec c.codec where
  decode := by
    intro b e h
    simp only [Code.codec] at h
    split at h
    · cases h
    · cases h
      decide
  encode := by
    intro a e h
    cases h

theorem terseCodec_unary {α : Type} [Encodable α] : TerseCodec (Codec.unary : Codec α) where
  decode := by
    intro b e h
    simp only [Codec.unary] at h
    split at h
    · cases h
    · cases h
      decide
  encode := by
    intro a e h
    cases h

theorem natAbs_lt_of_timeOk {t : Int} (h : TimeOk t) : t.natAbs < 256 ^ 9 := by
  simp only [TimeOk, nanosPerSec] at h
  omega

theorem natAbs_usec_lt (t : Int) : (now t).2.natAbs < 256 ^ 3 := by
  simp only [now, nanosPerSec]
  omega

theorem length_compact_krbError {env : Env} {realm text : Str} {data : Bytes}
    (hrealm : realm.toUtf8.length < 2 ^ 24) (htext : text.toUtf8.length < 2 ^ 24)
    (hdata : data.length < 2 ^ 24) :
    (Compact.krbError.write (buildError (env.clock.reading 9) krbErrGeneric realm
      (stringToPrincipalName "kadmin/changepw") (some text) (some data))).length ≤
        realm.toUtf8.length + text.toUtf8.length + data.length + 200 := by
  have hg : ∀ s : Str, (stringToGstring s).bytes.length = s.toUtf8.length := fun s =>
    List.length_map _
  have h₁ := Code.length_int_le (z := 5) (k := 1) (by decide) (by decide)
  have h₂ := Code.length_int_le (z := 30) (k := 1) (by decide) (by decide)
  have h₃ := Code.length_int_le (natAbs_lt_of_timeOk (timeOk_now env.clock 9)) (by decide)
  have h₄ := Code.length_int_le (natAbs_usec_lt (env.clock.reading 9)) (by decide)
  have h₅ := Compact.length_int32_le krbErrGeneric
  have h₆ := Compact.length_generalString_le (g := stringToGstring realm)
    (by rw [hg]; omega)
  have h₇ : (Compact.principalName.write (stringToPrincipalName "kadmin/changepw")).length ≤ 34 :=
    Compact.length_principalName_pair (by decide) (by decide)
  have h₈ := Compact.length_generalString_le (g := stringToGstring text) (by rw [hg]; omega)
  have h₉ := Code.length_octets_le (hdata.trans (by decide))
  rw [hg] at h₆ h₈
  change (Code.int.write 5 ++ (Code.int.write 30 ++ ([0] ++ ([0] ++
    (Code.int.write (now (env.clock.reading 9)).1 ++ (Code.int.write (now (env.clock.reading 9)).2 ++
      (Compact.int32.write krbErrGeneric ++ ([0] ++ ([0] ++
        (Compact.generalString.write (stringToGstring realm) ++
          (Compact.principalName.write (stringToPrincipalName "kadmin/changepw") ++
            (1 :: Compact.generalString.write (stringToGstring text) ++
              1 :: Code.octets.write data)))))))))))).length ≤ _
  simp only [List.length_append, List.length_cons, List.length_nil]
  omega

theorem le_length_compact_krbError {err : KrbError} {text : GeneralString} {data : Bytes}
    (htext : err.eText = some text) (hdata : err.eData = some data) :
    text.bytes.length + data.length ≤ (Compact.krbError.write err).length := by
  have h₁ := Code.le_length_octets text.bytes
  have h₂ := Code.le_length_octets data
  obtain ⟨front, hfront⟩ : ∃ front, Compact.krbError.write err =
      front ++ (Compact.generalString.option.write err.eText ++ Code.octets.option.write err.eData) := by
    refine ⟨Code.int.write err.pvno ++ (Code.int.write err.msgType ++
      (Code.int.option.write err.ctime ++ (Code.int.option.write err.cusec ++
        (Code.int.write err.stime ++ (Code.int.write err.susec ++
          (Compact.int32.write err.errorCode ++ (Compact.generalString.option.write err.crealm ++
            (Compact.principalName.option.write err.cname ++
              (Compact.generalString.write err.realm ++
                Compact.principalName.write err.sname))))))))), ?_⟩
    simp only [List.append_assoc]
    rfl
  rw [hfront, htext, hdata]
  change _ ≤ (front ++ (1 :: Code.octets.write text.bytes ++ 1 :: Code.octets.write data)).length
  simp only [List.length_append, List.length_cons]
  omega

theorem length_compact_encApRepPart {ctime cusec : Int} {seq : UInt32} {k : Nat}
    (htime : TimeOk ctime) (hcusec : cusec.natAbs < 256 ^ k) (hk : k < 2 ^ 24) :
    (Compact.encApRepPart.write ⟨ctime, cusec, none, some seq⟩).length ≤ k + 100 := by
  have h₁ := Code.length_int_le (natAbs_lt_of_timeOk htime) (by decide)
  have h₂ := Code.length_int_le hcusec (by omega)
  have h₃ := Compact.length_uint32_le seq
  change (Code.int.write ctime ++ (Code.int.write cusec ++ ([0] ++
    1 :: Compact.uint32.write seq))).length ≤ _
  simp only [List.length_append, List.length_cons, List.length_nil]
  omega

theorem length_hostAddress_le (addr : IpAddr) :
    (Compact.hostAddress.write (hostAddress addr)).length ≤ 29 := by
  have haddress : (hostAddress addr).address.length ≤ 16 := by
    cases addr with
    | v4 o => simp [hostAddress]
    | v6 o => simp [hostAddress]
  have h₁ := Compact.length_int32_le (hostAddress addr).addrType
  have h₂ := Code.length_octets_le (haddress.trans_lt (by decide))
  change (Compact.int32.write (hostAddress addr).addrType ++
    Code.octets.write (hostAddress addr).address).length ≤ _
  rw [List.length_append]
  omega

theorem length_compact_encKrbPrivPart {data : Bytes} {env : Env} {seq : UInt32} {addr : IpAddr}
    (hdata : data.length < 2 ^ 24) :
    (Compact.encKrbPrivPart.write ⟨data, some (now (env.clock.reading 1)).1,
      some (now (env.clock.reading 1)).2, some seq, some (hostAddress addr), none⟩).length ≤
        data.length + 200 := by
  have h₁ := Code.length_octets_le (hdata.trans (by decide))
  have h₂ := Code.length_int_le (natAbs_lt_of_timeOk (timeOk_now env.clock 1)) (by decide)
  have h₃ := Code.length_int_le (natAbs_usec_lt (env.clock.reading 1)) (by decide)
  have h₄ := Compact.length_uint32_le seq
  have h₅ := length_hostAddress_le addr
  change (Code.octets.write data ++ (1 :: Code.int.write (now (env.clock.reading 1)).1 ++
    (1 :: Code.int.write (now (env.clock.reading 1)).2 ++ (1 :: Compact.uint32.write seq ++
      (1 :: Compact.hostAddress.write (hostAddress addr) ++ [0]))))).length ≤ _
  simp only [List.length_append, List.length_cons, List.length_nil]
  omega

theorem sized_compact : Sized Compact.platform where
  krbError := by
    intro env realm text data b hrealm htext hdata hb
    cases hb
    exact length_compact_krbError hrealm htext hdata
  krbError_ge := by
    intro err text data b htext hdata hb
    cases hb
    exact le_length_compact_krbError htext hdata
  encApRepPart := by
    intro ctime cusec seq k b htime hcusec hk hb
    cases hb
    exact length_compact_encApRepPart htime hcusec hk
  apRep := by
    intro e cipher b hlen hb
    cases hb
    exact (Compact.length_apRep_le (show Int.natAbs 5 < 256 by decide)
      (show Int.natAbs 15 < 256 by decide) (hlen.trans (by decide))).trans
      (Nat.add_le_add_left (by decide) _)
  encKrbPrivPart := by
    intro data env seq addr b hdata hb
    cases hb
    exact length_compact_encKrbPrivPart hdata
  krbPriv := by
    intro e cipher b hlen hb
    cases hb
    exact (Compact.length_krbPriv_le (show Int.natAbs 5 < 256 by decide)
      (show Int.natAbs 21 < 256 by decide) (hlen.trans (by decide))).trans
      (Nat.add_le_add_left (by decide) _)
  encrypt := fun h => (Cipher.length_of_strict_encrypt h).trans (Nat.add_le_add_left (by decide) _)
  encrypt_error := by
    intro s e k u p err h
    rw [Cipher.error_of_strict_encrypt h]
    decide
  randomBytes_error := by
    intro s n err h
    cases h
  stringToKey_error := by
    intro e pass salt i err h
    cases h
  apReq_text := terseCodec_code _
  krbPriv_text := terseCodec_code _
  encTicketPart_text := terseCodec_unary
  authenticator_text := terseCodec_unary
  encKrbPrivPart_text := terseCodec_code _
  chgPwdData_text := terseCodec_unary
  encApRepPart_text := terseCodec_code _
  apRep_text := terseCodec_code _

def strayRequest (n : Nat) : ApReq :=
  ⟨5, 14, ⟨[]⟩, ⟨5, stringToGstring "IRON.LO", ⟨1, [stringToGstring (List.replicate n 'a')]⟩,
    ⟨17, none, []⟩⟩, ⟨17, none, []⟩⟩

def strayPriv : KrbPriv := ⟨5, 21, ⟨17, none, []⟩⟩

def strayBytes (n : Nat) : Bytes :=
  frame (Compact.apReq.write (strayRequest n)) (Compact.krbPriv.write strayPriv)

theorem toUtf8_replicate (n : Nat) : Str.toUtf8 (List.replicate n 'a') = List.replicate n 97 := by
  induction n with
  | zero => rfl
  | succ n ih =>
    rw [List.replicate_succ, Str.toUtf8, List.flatMap_cons, ← Str.toUtf8, ih]
    rfl

theorem length_replicate_toUtf8 (n : Nat) : (Str.toUtf8 (List.replicate n 'a')).length = n := by
  rw [toUtf8_replicate, List.length_replicate]

theorem length_strayBytes_le {n : Nat} (hn : n < 2 ^ 24) : (strayBytes n).length ≤ n + 200 := by
  have hg : (stringToGstring (List.replicate n 'a')).bytes.length = n :=
    (List.length_map _).trans (length_replicate_toUtf8 n)
  have h₁ := Code.length_int_le (z := 5) (k := 1) (by decide) (by decide)
  have h₂ := Code.length_int_le (z := 14) (k := 1) (by decide) (by decide)
  have h₃ := Compact.length_generalString_le (g := stringToGstring "IRON.LO") (by decide)
  have h₄ : (Compact.principalName.write ⟨1, [stringToGstring (List.replicate n 'a')]⟩).length ≤
      (stringToGstring (List.replicate n 'a')).bytes.length + 15 :=
    Compact.length_principalName_single (by rw [hg]; omega)
  have h₅ := Compact.length_encryptedData_le (d := ⟨17, none, []⟩) (by decide)
  have h₆ := Compact.length_krbPriv_le (r := strayPriv) (by decide) (by decide) (by decide)
  have hrealm : (stringToGstring "IRON.LO").bytes.length = 7 := by decide
  rw [hrealm] at h₃
  rw [hg] at h₄
  have hbody : strayPriv.encPart.cipher.length = 0 := rfl
  rw [strayBytes, length_frame]
  change 6 + (Code.int.write 5 ++ (Code.int.write 14 ++ ([0] ++ ((Code.int.write 5 ++
    (Compact.generalString.write (stringToGstring "IRON.LO") ++
      (Compact.principalName.write ⟨1, [stringToGstring (List.replicate n 'a')]⟩ ++
        Compact.encryptedData.write ⟨17, none, []⟩))) ++
          Compact.encryptedData.write ⟨17, none, []⟩)))).length +
            (Compact.krbPriv.write strayPriv).length ≤ _
  simp only [List.length_append, List.length_cons, List.length_nil] at h₅ ⊢
  omega

theorem parse_strayBytes {n : Nat} (hn : n < 65000) :
    parse Compact.platform (strayBytes n) = .ok ⟨versionChange, strayRequest n, strayPriv⟩ := by
  have hlen := length_strayBytes_le (n := n) (by omega)
  exact parse_frame (Code.decode_write _ _) (Code.decode_write _ _) (by
    rw [strayBytes] at hlen
    omega)

theorem sname_strayRequest (n : Nat) :
    principalNameToString (strayRequest n).ticket.sname = List.replicate n 'a' := by
  have hbytes : (stringToGstring (List.replicate n 'a')).bytes =
      Str.toUtf8 (List.replicate n 'a') := by
    change (Str.toUtf8 (List.replicate n 'a')).map _ = _
    rw [toUtf8_replicate, List.map_replicate]
    rfl
  change Str.join '/' [gstringToString (stringToGstring (List.replicate n 'a'))] = _
  rw [Str.join_singleton, gstringToString, hbytes, Utf8.fromUtf8Lossy_toUtf8]

theorem strayRequest_not_changepw {n : Nat} (hn : n ≠ 15) :
    isChangepw (strayRequest n).ticket.sname = false := by
  rw [isChangepw, sname_strayRequest, Str.eqIgnoreAsciiCase, beq_eq_false_iff_ne]
  intro h
  have hlen := congrArg List.length h
  rw [Str.length_asciiLower, Str.length_asciiLower, List.length_replicate] at hlen
  exact hn hlen

def emptyApp : AppState where
  store := ⟨.singleton TgsExchange.samplePartition, fun _ => .empty⟩
  indexSpec := indexSpec
  baseDn := TgsExchange.samplePartition.baseDn
  realm := "IRON.LO"
  topology := none
  ownPartitionId := none

theorem emptyApp_lookup (attr value : Str) :
    emptyApp.store.lookupByIndex emptyApp.baseDn attr value = .ok [] := rfl

theorem terse_emptyApp : TerseDirectory Compact.platform emptyApp where
  realm := by decide
  lookup_error := by
    intro attr value e h
    rw [emptyApp_lookup] at h
    cases h
  lookup := by
    intro attr value dns h
    rw [emptyApp_lookup] at h
    cases h
    simp
  read_error := by
    intro attr value dn e h
    rw [emptyApp_lookup] at h
    cases h
  write_error := by
    intro attr value dn entry e h
    rw [emptyApp_lookup] at h
    cases h

theorem strict_decrypt_nil {e : Enctype} {k : Bytes} {u : UInt32} {p : Bytes} :
    Compact.platform.cipher.decrypt e k u [] ≠ .ok p := by
  change (if k.length = e.keyLen then Cipher.ideal.decrypt e k u [] else Except.error _) ≠ _
  split
  · intro h
    cases h
  · intro h
    cases h

theorem terse_strayBytes {n : Nat} (hn : n ≤ limit) :
    TerseRequest Compact.platform (strayBytes n) := by
  have hparse : parse Compact.platform (strayBytes n) =
      .ok ⟨versionChange, strayRequest n, strayPriv⟩ :=
    parse_strayBytes (hn.trans_lt (by decide))
  constructor
  · intro r hr
    cases hparse.symm.trans hr
    have hrealm : Short (realmToString (stringToGstring "IRON.LO")) := by decide
    refine ⟨?_, hrealm⟩
    rw [sname_strayRequest]
    exact (length_replicate_toUtf8 n).trans_le hn
  · intro r e k b part hr hb
    cases hparse.symm.trans hr
    exact absurd hb strict_decrypt_nil
  · intro r e k b a hr hb
    cases hparse.symm.trans hr
    exact absurd hb strict_decrypt_nil
  · intro r e k b part d hr hb
    cases hparse.symm.trans hr
    exact absurd hb strict_decrypt_nil

def sampleEnv : Env := ⟨Clock.epoch, id⟩

def loopback : IpAddr := .v4 ⟨#[127, 0, 0, 1], rfl⟩

theorem strayRequest_not_service {n : Nat} (h15 : n ≠ 15) (app : AppState) :
    ¬ (isChangepw (strayRequest n).ticket.sname = true ∧
      (realmToString (strayRequest n).ticket.realm).eqIgnoreAsciiCase app.realm = true) := by
  rw [strayRequest_not_changepw h15]
  simp

theorem exists_reply_strayBytes {n : Nat} (hn : n < 65000) (h15 : n ≠ 15) : ∃ reply,
    (handle Compact.platform sampleEnv emptyApp (strayBytes n) loopback).1 = some reply :=
  ⟨_, congrArg Prod.fst (handle_of_wrongService sampleEnv emptyApp (parse_strayBytes hn)
    (strayRequest_not_service h15 emptyApp) loopback)⟩

theorem reply_framed_stray : ∃ reply,
    (handle Compact.platform sampleEnv emptyApp (strayBytes 5) loopback).1 = some reply ∧
      Framed Compact.platform reply := by
  obtain ⟨reply, hreply⟩ := exists_reply_strayBytes (n := 5) (by decide) (by decide)
  exact ⟨reply, hreply, (reply_framed Compact.platform_lawful sized_compact hreply).1
    (terse_strayBytes (by decide)) terse_emptyApp⟩

theorem message_ne_of_strayBytes {n : Nat} (hlong : 32768 ≤ n) (hn : n < 65000) {reply : Bytes}
    (h : (handle Compact.platform sampleEnv emptyApp (strayBytes n) loopback).1 = some reply) :
    Bytes.ofBe (reply.take 2) ≠ reply.length ∧ ¬ Framed Compact.platform reply := by
  have hle := le_length_reply Compact.platform_lawful sized_compact (parse_strayBytes hn)
    (strayRequest_not_service (by omega) emptyApp) h
  rw [sname_strayRequest, length_replicate_toUtf8] at hle
  constructor
  · intro hmessage
    obtain ⟨apRep, body, -, rfl⟩ := handle_composed h
    rw [take_frame, Bytes.ofBe_be] at hmessage
    have hlt := Nat.mod_lt (frame apRep body).length (show 256 ^ 2 > 0 by decide)
    rw [hmessage] at hlt
    omega
  · rw [framed_iff h]
    omega

/-- A request of less than 65536 octets is answered with a reply whose length
does not fit its field. -/
theorem reply_not_framed : Compact.platform.Lawful ∧ Sized Compact.platform ∧
    ∃ request reply, request.length < 65536 ∧
      (handle Compact.platform sampleEnv emptyApp request loopback).1 = some reply ∧
      Bytes.ofBe (reply.take 2) ≠ reply.length ∧ ¬ Framed Compact.platform reply := by
  obtain ⟨reply, hreply⟩ := exists_reply_strayBytes (n := 40000) (by decide) (by decide)
  exact ⟨Compact.platform_lawful, sized_compact, strayBytes 40000, reply,
    (length_strayBytes_le (by decide)).trans_lt (by decide), hreply,
    message_ne_of_strayBytes (by decide) (by decide) hreply⟩

end Reply

end IronDirectory.Kdc.Kpasswd
