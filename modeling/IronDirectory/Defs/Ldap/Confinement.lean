import IronDirectory.Defs.Base.Der
import IronDirectory.Defs.Ldap.Targets

namespace IronDirectory.Ldap

open Base Naming Storage Outcome

def Service.PasswordTarget (svc : Service) (value : Option Bytes) (bound : Option Str)
    (dn : Dn) : Prop :=
  ∃ bytes req identity, value = some bytes ∧ svc.decodePasswdModify bytes = .ok req ∧
    (req.userIdentity.map Utf8.fromUtf8Lossy).or bound = some identity ∧
    Service.resolvePasswordTarget identity = .ok dn

def UpdateRequest.Addresses (svc : Service) : UpdateRequest → Dn → Prop
  | .add _ req, dn => Dn.parse req.entry = .ok dn
  | .delete entry, dn => Dn.parse entry = .ok dn
  | .modify _ req, dn => Dn.parse req.object = .ok dn
  | .modDn req, dn =>
    ∃ old, Dn.parse req.entry = .ok old ∧ (dn = old ∨ req.MovesTo old dn)
  | .passwordModify _ value bound, dn => svc.PasswordTarget value bound dn

namespace Service

variable {svc : Service} {store : Store}

structure Confined (svc : Service) (store : Store) (req : UpdateRequest) : Prop where
  /-- no key of a name held elsewhere is written -/
  writes : ∀ w ∈ (svc.handle store req).writes, ¬ svc.referrals.Foreign w.1
  /-- and no other key changes, pools of RIDs apart -/
  frame : ∀ ref k, (∀ w ∈ (svc.handle store req).writes, ¬ Store.KeyOf k w.1) →
    (∀ pid, k ≠ RidPool.poolKey pid) →
      ((svc.handle store req).store.clusters ref).kv.find? k = (store.clusters ref).kv.find? k
  /-- an update about such a name fails -/
  fails : ∀ dn, req.Addresses svc dn → svc.referrals.Foreign dn →
    (svc.handle store req).result.Fails

/-- The updates that write to a name they have not checked write to none that
is held elsewhere. -/
def StaysHome (svc : Service) (store : Store) : UpdateRequest → Prop
  | .modDn req =>
    ∀ old new e, svc.MoveCarried store req old new e → ¬ svc.referrals.Foreign new
  | .passwordModify draw value bound =>
    ∀ dn e, svc.PasswordCarried draw store value bound dn e → ¬ svc.referrals.Foreign dn
  | _ => True

theorem MoveCarried.not_foreign {req : ModifyDnRequest} {old new : Dn} {e : Entry}
    (h : svc.MoveCarried store req old new e) : ¬ svc.referrals.Foreign old := by
  obtain ⟨_, _, _, _, -, -, hown, -⟩ := h
  exact hown

theorem PasswordCarried.target {draw : Nat} {value : Option Bytes} {bound : Option Str} {dn : Dn}
    {e : Entry} (h : svc.PasswordCarried draw store value bound dn e) :
    svc.PasswordTarget value bound dn := by
  obtain ⟨bytes, req, _, identity, _, _, _, -, hb, hreq, -, hid, hdn, -⟩ := h
  exact ⟨bytes, req, identity, hb, hreq, hid, hdn⟩

theorem passwordTarget_unique {value : Option Bytes} {bound : Option Str} {dn dn' : Dn}
    (h : svc.PasswordTarget value bound dn) (h' : svc.PasswordTarget value bound dn') :
    dn = dn' := by
  obtain ⟨bytes, req, identity, rfl, hreq, hid, hdn⟩ := h
  obtain ⟨_, _, _, hb, hreq', hid', hdn'⟩ := h'
  cases hb
  cases hreq.symm.trans hreq'
  cases hid.symm.trans hid'
  cases hdn.symm.trans hdn'
  rfl

theorem confined_iff {req : UpdateRequest} :
    svc.Confined store req ↔
      (∀ w ∈ (svc.handle store req).writes, ¬ svc.referrals.Foreign w.1) ∧
        ∀ dn, req.Addresses svc dn → svc.referrals.Foreign dn →
          (svc.handle store req).result.Fails := by
  constructor
  · intro h
    exact ⟨h.writes, h.fails⟩
  · rintro ⟨hwrites, hfails⟩
    exact ⟨hwrites, fun ref k hk hpool => (handle_traced svc store req).frame hk hpool ref, hfails⟩

theorem confined_of_target {req : UpdateRequest} {s : Str}
    (haddr : ∀ dn, req.Addresses svc dn → Dn.parse s = .ok dn)
    (hwrites : ∀ w ∈ (svc.handle store req).writes, svc.target s = .ok w.1)
    (hfails : ∀ result, svc.target s = .error result → (svc.handle store req).result = result) :
    svc.Confined store req := by
  refine confined_iff.mpr ⟨fun w hw => (target_eq_ok.mp (hwrites w hw)).2, ?_⟩
  intro dn hdn hforeign
  cases ht : svc.target s with
  | ok d =>
    obtain ⟨hd, hown⟩ := target_eq_ok.mp ht
    cases (haddr dn hdn).symm.trans hd
    exact absurd hforeign hown
  | error result =>
    rw [hfails result ht]
    exact target_errors svc s result ht

theorem confined_add (svc : Service) (draw : Nat → Nat → Nat) (store : Store) (req : AddRequest) :
    svc.Confined store (.add draw req) := by
  apply confined_of_target (s := req.entry) fun _ => id
  · intro w hw
    simp only [handle, handleAdd] at hw
    split at hw
    · cases hw
    · next hplan =>
      obtain ⟨e₀, hdn, hown, -⟩ := planAdd_eq_ok.mp hplan
      cases eq_of_mem_put_writes hw
      exact target_eq_ok.mpr ⟨hdn, hown⟩
  · intro result h
    simp only [handle, handleAdd, planAdd, h]
    rfl

theorem confined_delete (svc : Service) (store : Store) (entry : Str) :
    svc.Confined store (.delete entry) := by
  apply confined_of_target (s := entry) fun _ => id
  · intro w hw
    simp only [handle, handleDelete] at hw
    split at hw
    · cases hw
    · next htarget =>
      split at hw
      · cases List.mem_singleton.mp hw
        exact htarget
      · cases hw
  · intro result h
    simp only [handle, handleDelete, h]
    rfl

theorem confined_modify (svc : Service) (draw : Nat → Nat → Nat) (store : Store)
    (req : ModifyRequest) : svc.Confined store (.modify draw req) := by
  apply confined_of_target (s := req.object) fun _ => id
  · intro w hw
    simp only [handle, handleModify] at hw
    split at hw
    · cases hw
    · next hplan =>
      obtain ⟨e₀, hdn, hown, -⟩ := planModify_eq_ok.mp hplan
      cases eq_of_mem_put_writes hw
      exact target_eq_ok.mpr ⟨hdn, hown⟩
  · intro result h
    simp only [handle, handleModify, planModify, h]
    rfl

theorem confined_modDn_iff {req : ModifyDnRequest} :
    svc.Confined store (.modDn req) ↔ svc.StaysHome store (.modDn req) := by
  have hcase := handleModDn_cases svc store req
  rw [confined_iff, handle]
  generalize svc.handleModDn store req = u at hcase
  constructor
  · rintro ⟨hwrites, -⟩ old new e hc
    apply hwrites (new, some e)
    cases hcase with
    | refused _ hno => exact absurd hc (hno old new e)
    | kept hc' =>
      obtain ⟨rfl, rfl, rfl⟩ := hc.unique hc'
      simp
    | moved hc' =>
      obtain ⟨rfl, rfl, rfl⟩ := hc.unique hc'
      simp
    | doubled hc' =>
      obtain ⟨rfl, rfl, rfl⟩ := hc.unique hc'
      simp
  · intro h
    have haddr : ∀ {old new e}, svc.MoveCarried store req old new e → ∀ dn,
        UpdateRequest.Addresses svc (.modDn req) dn → ¬ svc.referrals.Foreign dn := by
      rintro old new e hc dn ⟨old', hold, hdn⟩
      obtain ⟨hold', hnew⟩ := hc.movesTo
      cases hold.symm.trans hold'
      cases hdn with
      | inl heq => exact heq ▸ hc.not_foreign
      | inr hmoves => exact movesTo_unique hnew hmoves ▸ h _ _ _ hc
    cases hcase with
    | refused hfails => exact ⟨by simp [Update.refused], fun _ _ _ => hfails⟩
    | kept hc =>
      exact ⟨by simpa using h _ _ _ hc, fun dn hdn hf => absurd hf (haddr hc dn hdn)⟩
    | moved hc =>
      exact ⟨by simpa using ⟨h _ _ _ hc, hc.not_foreign⟩,
        fun dn hdn hf => absurd hf (haddr hc dn hdn)⟩
    | doubled hc =>
      exact ⟨by simpa using h _ _ _ hc, fun dn hdn hf => absurd hf (haddr hc dn hdn)⟩

theorem confined_passwordModify_iff {draw : Nat} {value : Option Bytes} {bound : Option Str} :
    svc.Confined store (.passwordModify draw value bound) ↔
      svc.StaysHome store (.passwordModify draw value bound) := by
  have hcase := handlePasswordModify_cases svc draw store value bound
  rw [confined_iff, handle]
  generalize svc.handlePasswordModify draw store value bound = u at hcase
  constructor
  · rintro ⟨hwrites, -⟩ dn e hc
    apply hwrites (dn, some e)
    cases hcase with
    | refused _ hno => exact absurd hc (hno dn e)
    | stored hc' =>
      cases (passwordCarried_iff.mp hc).1.symm.trans (passwordCarried_iff.mp hc').1
      simp
  · intro h
    cases hcase with
    | refused hfails => exact ⟨by simp [Update.refused], fun _ _ _ => hfails⟩
    | stored hc =>
      refine ⟨by simpa using h _ _ hc, fun dn hdn hforeign => ?_⟩
      cases passwordTarget_unique hc.target hdn
      exact absurd hforeign (h _ _ hc)

/-- An update leaves the names held elsewhere alone exactly when the two
handlers that do not ask about their target are not given such a one. -/
theorem confined_iff_staysHome (svc : Service) (store : Store) (req : UpdateRequest) :
    svc.Confined store req ↔ svc.StaysHome store req := by
  cases req with
  | add draw req => exact iff_true_intro (confined_add svc draw store req)
  | delete entry => exact iff_true_intro (confined_delete svc store entry)
  | modify draw req => exact iff_true_intro (confined_modify svc draw store req)
  | modDn req => exact confined_modDn_iff
  | passwordModify draw value bound => exact confined_passwordModify_iff

section Samples

open Tracked (corp corpPerson)

def corpForest : PartitionRegistry :=
  let child : Partition :=
    { corp with
      id := ⟨"child", by decide⟩
      baseDn := ⟨⟨[⟨"dc", "child"⟩]⟩ :: corp.baseDn.rdns⟩
      ldapUrl := some "ldap://child" }
  ((PartitionRegistry.singleton corp).insert child).toOption.getD .new

def childAlice : Dn := ⟨[⟨[⟨"cn", "Alice"⟩]⟩, ⟨[⟨"dc", "child"⟩]⟩, ⟨[⟨"dc", "corp"⟩]⟩]⟩

def optionalOctets (tag : UInt8) : Bytes → Option Bytes × Bytes
  | t :: n :: rest =>
    if t = tag ∧ n.toNat ≤ rest.length then (some (rest.take n.toNat), rest.drop n.toNat)
    else (none, t :: n :: rest)
  | bytes => (none, bytes)

/-- RFC 3062's request value, where each length is a single octet. -/
def readPasswdModify : Bytes → Except Str PasswdModifyRequestValue
  | tag :: n :: fields =>
    let (userIdentity, fields') := optionalOctets 0x80 fields
    let (oldPasswd, fields') := optionalOctets 0x81 fields'
    let (newPasswd, fields') := optionalOctets 0x82 fields'
    if tag = 0x30 ∧ n.toNat = fields.length ∧ fields' = [] then
      .ok ⟨userIdentity, oldPasswd, newPasswd⟩
    else .error "not a SEQUENCE of octet strings"
  | _ => .error "unexpected end of input"

def newPasswordFor (dn newPasswd : Str) : Bytes :=
  Der.tlv 0x30 (Der.tlv 0x80 (Str.toUtf8 dn) ++ Der.tlv 0x82 (Str.toUtf8 newPasswd))

def homeService : Service :=
  { corpService with
    referrals := ⟨some corpForest, [], some corp.id⟩
    decodePasswdModify := readPasswdModify }

theorem childAlice_foreign : homeService.referrals.Foreign childAlice :=
  ⟨corpForest, corp.id, _, "ldap://child", rfl, rfl, rfl, by decide, rfl⟩

def person (dn : Dn) : Store :=
  corpStore (OrderedMap.empty.insert (Key.entryKey corp.id dn)
    (.entry (Entry.new.set "cn" ["Alice"])))

/-- A rename moves an entry into the child domain's names; a password change
writes under them. -/
theorem child_not_left_alone :
    ¬ homeService.Confined (person (corpPerson "Alice"))
        (.modDn ⟨"cn=Alice,dc=corp", "cn=Alice", false, some "dc=child,dc=corp"⟩) ∧
      ¬ homeService.Confined (person childAlice)
        (.passwordModify 0 (some (newPasswordFor "cn=Alice,dc=child,dc=corp" "correct horse"))
          none) := by
  constructor
  · intro h
    have hf := h.fails childAlice ⟨_, rfl, .inr ⟨_, rfl, rfl⟩⟩ childAlice_foreign
    exact hf (by decide +kernel)
  · intro h
    have hf := h.fails childAlice ⟨_, _, _, rfl, rfl, rfl, rfl⟩ childAlice_foreign
    exact hf (by decide +kernel)

end Samples

end Service

end IronDirectory.Ldap
