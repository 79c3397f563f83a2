import IronDirectory.Defs.Ldap.UpdateLaws
import IronDirectory.Defs.Storage.EntryLaws

namespace IronDirectory.Ldap

open Base Crypto Kerberos Naming Storage Outcome

def IsHash (p : Provider) (v : Str) : Prop := ∃ draw password, hashPassword p draw password = .ok v

def Hashed (p : Provider) (e : Entry) : Prop := e.All (IsHash p) userPasswordAttr

def StoreHashed (p : Provider) (s : Store) : Prop :=
  ∀ ref k e, (s.clusters ref).kv.find? k = some (.entry e) → Hashed p e

variable {p : Provider}

theorem isHash_of_mem {draw : Nat → Nat} {values hashes : List Str}
    (h : hashPasswordValues p draw values = .ok hashes) : ∀ v ∈ hashes, IsHash p v := by
  unfold hashPasswordValues at h
  split at h
  · intro v hv
    obtain ⟨x, -, hx⟩ := (mem_of_mapM_eq_ok h v).mp hv
    exact ⟨_, _, hx⟩
  · cases h

section Entries

variable {e : Entry} {attr : Str} {values : List Str}

theorem Hashed.set (h : Hashed p e) (hv : isUserPassword attr = true → ∀ v ∈ values, IsHash p v) :
    Hashed p (e.set attr values) :=
  Entry.All.set h fun heq => hv (beq_iff_eq.mpr heq.symm)

theorem Hashed.addValues (h : Hashed p e)
    (hv : isUserPassword attr = true → ∀ v ∈ values, IsHash p v) :
    Hashed p (e.addValues attr values) :=
  Entry.All.addValues h fun heq => hv (beq_iff_eq.mpr heq.symm)

theorem Hashed.set_other (h : Hashed p e) (hattr : isUserPassword attr = false) :
    Hashed p (e.set attr values) := by
  apply h.set
  simp [hattr]

theorem hashed_entryFromAttributes {draw : Nat → Nat → Nat} {attrs : List Attribute}
    (h : entryFromAttributes p draw attrs = .ok e) : Hashed p e := by
  refine foldlM_invariant ?_ (Entry.all_new _ _) h
  intro e₀ a e₁ _ he h
  split at h
  · obtain ⟨hashes, hh, h⟩ := bind_eq_ok.mp h
    cases h
    exact Hashed.set he fun _ => isHash_of_mem hh
  · cases h
    exact Hashed.set he fun hp => absurd hp ‹_›

theorem Hashed.stamp {store store' : Store} {topology : Option PartitionRegistry} {dn : Dn}
    {stamped : Entry} (he : Hashed p e)
    (h : Security.stampSecurityPrincipal store topology dn e = .ok (stamped, store')) :
    Hashed p stamped := by
  obtain ⟨rfl, -⟩ | ⟨-, _, _, -, rfl⟩ := Service.stampSecurityPrincipal_eq_ok h
  · exact he
  · exact (he.set_other (by decide)).set_other (by decide)

theorem Hashed.setPassword {c : Cipher} {draw : Nat} {name : Str} {password : Bytes} {e' : Entry}
    (he : Hashed p e) (h : Kdc.setPassword c draw e name password = .ok e') : Hashed p e' := by
  obtain ⟨salt, -, h⟩ := bind_eq_ok.mp h
  obtain ⟨keys, -, h⟩ := bind_eq_ok.mp h
  cases h
  exact ((he.set_other (by decide)).set_other (by decide)).set_other (by decide)

end Entries

namespace Service

variable {svc : Service}

theorem hashed_applyChange {draw : Nat → Nat} {e e' : Entry} {change : Change}
    (he : Hashed svc.toProvider e) (h : svc.applyChange draw e change = .ok e') :
    Hashed svc.toProvider e' := by
  unfold applyChange at h
  simp only at h
  split at h
  · split at h
    · obtain ⟨hashes, hh, h⟩ := bind_eq_ok.mp h
      cases h
      exact he.addValues fun _ => isHash_of_mem hh
    · cases h
      exact he.addValues fun hp => absurd hp ‹_›
  · cases h
    exact Entry.All.deleteValues he
  · split at h
    · cases h
      exact Entry.All.deleteValues he
    · split at h
      · obtain ⟨hashes, hh, h⟩ := bind_eq_ok.mp h
        cases h
        exact he.set fun _ => isHash_of_mem hh
      · cases h
        exact he.set fun hp => absurd hp ‹_›

theorem hashed_applyChanges {draw : Nat → Nat → Nat} {e e' : Entry} {changes : List Change}
    (he : Hashed svc.toProvider e) (h : svc.applyChanges draw e changes = .ok e') :
    Hashed svc.toProvider e' :=
  foldlM_invariant (fun _ _ _ _ he h => hashed_applyChange he h) he h

def PlainFree (p : Provider) (rdn : Rdn) : Prop :=
  ∀ a ∈ rdn.avas, isUserPassword a.attr = true → IsHash p a.value

theorem hashed_foldl {α : Type} {f : Entry → α → Entry} {xs : List α} {e : Entry}
    (hf : ∀ e, ∀ x ∈ xs, Hashed p e → Hashed p (f e x)) (he : Hashed p e) :
    Hashed p (xs.foldl f e) := by
  induction xs generalizing e with
  | nil => exact he
  | cons x xs ih =>
    exact ih (fun e y hy => hf e y (List.mem_cons_of_mem _ hy)) (hf e x List.mem_cons_self he)

theorem hashed_renamed {req : ModifyDnRequest} {newRdn oldRdn : Rdn} {e : Entry}
    (hrdn : PlainFree p newRdn) (he : Hashed p e) : Hashed p (renamed req newRdn oldRdn e) := by
  have hnew : Hashed p (newRdn.avas.foldl (fun e a => e.addValues a.attr [a.value]) e) := by
    refine hashed_foldl ?_ he
    intro e a ha he
    apply he.addValues
    simpa using hrdn a ha
  unfold renamed
  simp only
  split
  · refine hashed_foldl ?_ hnew
    intro e a _ he
    split
    · exact he
    · exact Entry.All.deleteValues he
  · exact hnew

/-- The only request that can store something else under `userPassword`. -/
def BringsNoPassword (p : Provider) : UpdateRequest → Prop
  | .modDn req => ∀ rdn, Dn.parse req.newRdn = .ok ⟨[rdn]⟩ → PlainFree p rdn
  | _ => True

theorem hashed_of_mem_writes {store : Store} {req : UpdateRequest}
    (hs : StoreHashed svc.toProvider store) (hreq : BringsNoPassword svc.toProvider req) {dn : Dn}
    {e : Entry} (hmem : (dn, some e) ∈ (svc.handle store req).writes) :
    Hashed svc.toProvider e := by
  cases written_of_mem hmem with
  | add hattrs _ hstamp => exact (hashed_entryFromAttributes hattrs).stamp hstamp
  | modify he hchanges _ => exact hashed_applyChanges (Store.Each.getEntry hs he) hchanges
  | modDn _ _ hrdn he => exact hashed_renamed (hreq _ hrdn) (Store.Each.getEntry hs he)
  | passwordModify he hset =>
    have hold : Hashed svc.toProvider _ := Store.Each.getEntry hs he
    exact hold.setPassword hset

structure Served where
  fips : Bool
  request : UpdateRequest

def withFips (svc : Service) (fips : Bool) : Service := { svc with fips := fips }

def Serves (svc : Service) (s : Store) (u : Served) (s' : Store) : Prop :=
  s' = ((svc.withFips u.fips).handle s u.request).store

theorem storeHashed_of_serves {s s' : Store} {u : Served} (hs : StoreHashed svc.toProvider s)
    (hu : BringsNoPassword svc.toProvider u.request) (hstep : svc.Serves s u s') :
    StoreHashed svc.toProvider s' := by
  rw [hstep]
  refine (handle_traced (svc.withFips u.fips) s u.request).each hs ?_
  intro dn e hmem
  exact @hashed_of_mem_writes (svc.withFips u.fips) s u.request hs hu dn e hmem

/-- From a store with hashed passwords, no series of updates leaves a plain one
at rest as long as no rename brings one in. -/
theorem passwords_stay_hashed (svc : Service) {s t : Store} {steps : List (Store × Served)}
    (hs : StoreHashed svc.toProvider s) (hrun : Run svc.Serves s steps t)
    (hguard : ∀ x ∈ steps, BringsNoPassword svc.toProvider x.2.request) :
    ∀ x ∈ Run.states steps t, StoreHashed svc.toProvider x :=
  Run.invariant_of_guard (fun _ _ _ hs hu hstep => storeHashed_of_serves hs hu hstep) hrun hs
    hguard

section Samples

open Tracked (corp corpPerson)

def text (s : Str) : Bytes := s.toUtf8

def addAlice : UpdateRequest :=
  .add (fun _ _ => 0) ⟨"cn=Alice,dc=corp", [⟨"userPassword", [text "correct horse"]⟩]⟩

def renameAlice (newRdn : Str) : UpdateRequest :=
  .modDn ⟨"cn=Alice,dc=corp", newRdn, true, none⟩

theorem passwords_stay_hashed_corp :
    ∃ steps t, Run corpService.Serves (corpStore .empty) steps t ∧
      (t.entryAt (corpPerson "Bob")).isSome = true ∧ StoreHashed corpService.toProvider t := by
  have hempty : StoreHashed corpService.toProvider (corpStore .empty) := by
    intro ref k e hk
    cases hk
  have hrun := Run.cons
    (show corpService.Serves (corpStore .empty) ⟨true, addAlice⟩ _ from rfl)
    (Run.cons (show corpService.Serves _ ⟨false, renameAlice "cn=Bob"⟩ _ from rfl) (.nil _))
  refine ⟨_, _, hrun, by decide +kernel,
    passwords_stay_hashed corpService hempty hrun ?_ _ (Run.last_mem _ _)⟩
  simp only [List.forall_mem_cons]
  refine ⟨trivial, ?_, by simp⟩
  intro rdn hrdn
  obtain rfl : rdn = ⟨[⟨"cn", "Bob"⟩]⟩ := by
    have h : Dn.parse "cn=Bob" = .ok ⟨[⟨[⟨"cn", "Bob"⟩]⟩]⟩ := rfl
    simpa using hrdn.symm.trans h
  intro a ha hp
  obtain rfl := List.mem_singleton.mp ha
  exact absurd hp (by decide)

theorem dollar_of_isHash {v : Str} (h : IsHash p v) : v.head? = some '$' := by
  obtain ⟨draw, password, h⟩ := h
  unfold hashPassword at h
  split at h
  · cases h
  · obtain ⟨salt, -, h⟩ := bind_eq_ok.mp h
    obtain ⟨hash, -, h⟩ := bind_eq_ok.mp h
    cases h
    rfl

def aliceStore : Store :=
  corpStore (OrderedMap.empty.insert (Key.entryKey corp.id (corpPerson "Alice"))
    (.entry (Entry.new.set "cn" ["Alice"])))

set_option maxRecDepth 4000 in
/-- A rename to an RDN of type `userPassword` stores its value as it is. -/
theorem rename_stores_plain_password :
    StoreHashed corpService.toProvider aliceStore ∧
      ∃ t, corpService.Serves aliceStore ⟨true, renameAlice "userPassword=correct horse"⟩ t ∧
        ¬ StoreHashed corpService.toProvider t := by
  constructor
  · intro ref k e hk
    replace hk : (OrderedMap.empty.insert (Key.entryKey corp.id (corpPerson "Alice"))
      (.entry (Entry.new.set "cn" ["Alice"]))).find? k = some (Value.entry e) := hk
    rw [OrderedMap.find?_insert] at hk
    split at hk
    · cases hk
      exact Hashed.set_other (Entry.all_new _ _) (by decide)
    · cases hk
  · refine ⟨_, rfl, fun hs => ?_⟩
    have hv := hs corp.cluster
      (Key.entryKey corp.id ⟨⟨[⟨"userpassword", "correct horse"⟩]⟩ :: corp.baseDn.rdns⟩)
      (Entry.new.set "userPassword" ["correct horse"]) rfl
    have := dollar_of_isHash (hv "correct horse" (by decide))
    exact absurd this (by decide)

end Samples

end Service

end IronDirectory.Ldap
