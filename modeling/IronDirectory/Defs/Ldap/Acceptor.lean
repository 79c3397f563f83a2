import IronDirectory.Defs.Ldap.Identity

namespace IronDirectory.Ldap

open Base Crypto Kerberos Naming Storage Kdc

/-- The principal the server itself goes by. -/
structure OwnPrincipal where
  sname : PrincipalName
  realm : Realm
  service : TgsExchange.firstComponent (principalNameToString sname) = "ldap"

/-- Names are compared as the key lookup spells them. -/
def OwnPrincipal.NamedBy (own : OwnPrincipal) (ticket : Ticket) : Prop :=
  principalNameToString ticket.sname = principalNameToString own.sname ∧
    realmToString ticket.realm = realmToString own.realm

instance (own : OwnPrincipal) (ticket : Ticket) : Decidable (own.NamedBy ticket) :=
  inferInstanceAs (Decidable (_ ∧ _))

/-- If the directory has keys for the principal the request's ticket names, that
principal is the server's own. -/
def NamesOwn (p : Provider) (own : OwnPrincipal) (store : Store) (req : BindRequest) : Prop :=
  ∀ token ap partition ks, req.authentication = .sasl "GSSAPI" (some token) →
    Gssapi.tokenApReq p.platform token = .ok ap → store.registry.iter.head? = some partition →
      Gssapi.lookupKeys store partition.baseDn ap.ticket.sname (realmToString ap.ticket.realm) =
        .ok ks → own.NamedBy ap.ticket

/-- The ticket of an accepted bind opened under a key stored for the server's
own principal. -/
def SealedByOwn (p : Provider) (own : OwnPrincipal) (a : BindEvent) : Prop :=
  ∃ token ap partition ks e k b, a.request.authentication = .sasl "GSSAPI" (some token) ∧
    Gssapi.tokenApReq p.platform token = .ok ap ∧ own.NamedBy ap.ticket ∧
    a.store.registry.iter.head? = some partition ∧
    Gssapi.lookupKeys a.store partition.baseDn own.sname (realmToString own.realm) = .ok ks ∧
    ks.find? (fun k => k.enctype == e) = some k ∧
    p.platform.cipher.decrypt e k.key 2 ap.ticket.encPart.cipher = .ok b

theorem lookupKeys_congr {store : Store} {anyDn : Dn} {sname sname' : PrincipalName} {realm : Str}
    (h : principalNameToString sname = principalNameToString sname') :
    Gssapi.lookupKeys store anyDn sname realm = Gssapi.lookupKeys store anyDn sname' realm := by
  rw [Gssapi.lookupKeys, h]
  rfl

theorem Accepts.sealedByOwn {p : Provider} {own : OwnPrincipal} {a : BindEvent} {ctx : Context}
    (h : Accepts p a.env a.store a.request ctx) (hnames : NamesOwn p own a.store a.request) :
    SealedByOwn p own a := by
  obtain ⟨token, partition, acc, _, hauth, hpartition, haccept, _⟩ := h
  obtain ⟨ap, ks, k, b, hap, hks, hk, hb⟩ := Gssapi.accept_eq_ok haccept
  have hown := hnames token ap partition ks hauth hap hpartition hks
  rw [hown.2, lookupKeys_congr hown.1] at hks
  exact ⟨token, ap, partition, ks, acc.enctype, k, b, hauth, hap, hown, hpartition, hks, hk, hb⟩

section

variable {R A : Type} {server : Server R A} {own : OwnPrincipal}

def ReadsOwnTicket (server : Server R A) (own : OwnPrincipal) (s : Conn server.platform.cipher)
    (i : Input) : Prop :=
  ∀ req ∈ readBind server s i, NamesOwn server.toProvider own i.store req

def BindsNameOwn {c : Cipher} (p : Provider) (own : OwnPrincipal) (s : Conn c) : Prop :=
  ∀ e ∈ binds s.history, NamesOwn p own e.store e.request

theorem BindsNameOwn.step {s t : Conn server.platform.cipher} {i : Input}
    (h : BindsNameOwn server.toProvider own s) (hguard : ReadsOwnTicket server own s i)
    (hstep : Step server s i t) : BindsNameOwn server.toProvider own t := by
  obtain ⟨_, rfl⟩ := hstep
  unfold BindsNameOwn
  cases advance_cases i s with
  | inl hsent =>
    rw [hsent.binds_eq]
    exact h
  | inr hbind =>
    obtain ⟨req, _, hreq, hround⟩ := hbind
    rw [hround.binds_eq]
    exact forall_mem_snoc h (hguard req hreq)

end

theorem tokenApReq_sample {service : Str} {key token : Bytes} {ap : ApReq}
    (h : Gssapi.tokenApReq (samplePlatform service key) token = .ok ap) :
    ap = sampleApReq service key := by
  simp only [Gssapi.tokenApReq, Outcome.bind_eq_ok, Outcome.mapError_eq_ok] at h
  obtain ⟨_, _, bytes, _, hdecode⟩ := h
  simp only [samplePlatform, onlyCodec] at hdecode
  split at hdecode
  · cases hdecode
    rfl
  · cases hdecode

def ldapStore : Store :=
  TgsExchange.addPrincipal TgsExchange.sampleApp.store "dc" "ldap/dc@IRON.LO"
    (TgsExchange.sampleKey 5)

def ldapServer : Server Unit Unit := sampleServer "ldap/dc" (TgsExchange.sampleKey 5).key

def ldapPrincipal : OwnPrincipal :=
  ⟨stringToPrincipalName "ldap/dc", stringToGstring "IRON.LO", by decide +kernel⟩

def aliceServer : Server Unit Unit := sampleServer "alice" (TgsExchange.sampleKey 1).key

end IronDirectory.Ldap
