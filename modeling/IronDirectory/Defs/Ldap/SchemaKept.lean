import IronDirectory.Defs.Ldap.RenameValues
import IronDirectory.Defs.Ldap.StoredPasswords

namespace IronDirectory.Ldap

open Base Crypto Kerberos Naming Storage Outcome

namespace Schema

def required (oc : Str) : List Str :=
  ((classes.find? fun c => c.name.eqIgnoreAsciiCase oc).map ObjectClass.must).getD []

theorem missing_eq_none {e : Entry} {oc : Str} :
    missing e oc = none ↔ ∀ m ∈ required oc, e.valuesOf m ≠ [] := by
  unfold missing required
  cases classes.find? fun c => c.name.eqIgnoreAsciiCase oc with
  | none => simp
  | some c => simp

theorem validate_eq_ok {e : Entry} :
    validate e = .ok () ↔
      ∀ oc ∈ e.valuesOf "objectclass", ∀ m ∈ required oc, e.valuesOf m ≠ [] := by
  unfold validate
  split
  · next oc m hfound =>
    obtain ⟨oc', hmem, hmissing⟩ := List.exists_of_findSome?_eq_some hfound
    obtain ⟨m', hm', heq⟩ := Option.map_eq_some_iff.mp hmissing
    cases heq
    refine iff_of_false nofun fun hall => ?_
    cases (missing_eq_none.mpr (hall oc hmem)).symm.trans hm'
  · next hnone =>
    refine iff_of_true rfl fun oc hoc => ?_
    rw [List.findSome?_eq_none_iff] at hnone
    exact missing_eq_none.mp (Option.map_eq_none_iff.mp (hnone oc hoc))

theorem validate_set {e : Entry} {attr : Str} {values : List Str}
    (hattr : Str.asciiLower "objectclass" ≠ attr.asciiLower)
    (hmust : ∀ c ∈ classes, ∀ m ∈ c.must, m.asciiLower ≠ attr.asciiLower)
    (h : validate e = .ok ()) : validate (e.set attr values) = .ok () := by
  rw [validate_eq_ok] at h ⊢
  intro oc hoc m hm
  rw [Entry.valuesOf_set, if_neg hattr] at hoc
  have hrequired : ∃ c ∈ classes, m ∈ c.must := by
    unfold required at hm
    cases hfind : classes.find? fun c => c.name.eqIgnoreAsciiCase oc with
    | none =>
      rw [hfind] at hm
      cases hm
    | some c =>
      rw [hfind] at hm
      exact ⟨c, List.mem_of_find?_eq_some hfind, hm⟩
  obtain ⟨c, hc, hm'⟩ := hrequired
  rw [Entry.valuesOf_set, if_neg (hmust c hc m hm')]
  exact h oc hoc m hm

end Schema

namespace Service

section Renaming

variable {req : ModifyDnRequest} {newRdn oldRdn : Rdn} {e : Entry}

/-- Every class the entry still has, or gets from its new RDN, finds each
attribute it requires: in the new RDN, or among the values that stay. -/
def KeepsRequired (req : ModifyDnRequest) (newRdn oldRdn : Rdn) (e : Entry) : Prop :=
  ∀ oc, HoldsAfter req newRdn oldRdn e "objectclass" oc → ∀ m ∈ Schema.required oc,
    ∃ v, HoldsAfter req newRdn oldRdn e m v

theorem validate_renamed_iff :
    Schema.validate (renamed req newRdn oldRdn e) = .ok () ↔
      KeepsRequired req newRdn oldRdn e := by
  have hne : ∀ vs : List Str, vs ≠ [] ↔ ∃ v, v ∈ vs :=
    fun vs => ⟨List.exists_mem_of_ne_nil vs, fun ⟨_, hv⟩ => List.ne_nil_of_mem hv⟩
  simp only [Schema.validate_eq_ok, KeepsRequired, hne, mem_renamed]

end Renaming

variable {svc : Service}

def KeepsSchema (store : Store) : UpdateRequest → Prop
  | .modDn req => ∀ old oldRdn rdn e, Dn.parse req.entry = .ok old →
    old.rdns.head? = some oldRdn → Dn.parse req.newRdn = .ok ⟨[rdn]⟩ →
    store.getEntry old = .ok (some e) → KeepsRequired req rdn oldRdn e
  | _ => True

theorem validate_of_written {store : Store} {req : UpdateRequest} {e : Entry}
    (hs : store.Each fun e => Schema.validate e = .ok ()) (hreq : KeepsSchema store req)
    (h : Written svc store req e) : Schema.validate e = .ok () := by
  cases h with
  | add _ hvalid hstamp =>
    obtain ⟨rfl, -⟩ | ⟨_, _, _, -, rfl⟩ := stampSecurityPrincipal_eq_ok hstamp
    · exact hvalid
    · exact Schema.validate_set (by decide) (by decide)
        (Schema.validate_set (by decide) (by decide) hvalid)
  | modify _ _ hvalid => exact hvalid
  | modDn hold hhead hrdn he => exact validate_renamed_iff.mpr (hreq _ _ _ _ hold hhead hrdn he)
  | passwordModify he hset =>
    obtain ⟨salt, -, hset⟩ := bind_eq_ok.mp hset
    obtain ⟨keys, -, hset⟩ := bind_eq_ok.mp hset
    cases hset
    exact Schema.validate_set (by decide) (by decide) (Schema.validate_set (by decide) (by decide)
      (Schema.validate_set (by decide) (by decide) (hs.getEntry he)))

/-- From a store whose entries are all valid, no series of updates leaves an
invalid one as long as every rename keeps what the classes require. -/
theorem entries_stay_valid (svc : Service) {s t : Store} {steps : List (Store × Served)}
    (hs : s.Each fun e => Schema.validate e = .ok ()) (hrun : Run svc.Serves s steps t)
    (hguard : ∀ x ∈ steps, KeepsSchema x.1 x.2.request) :
    ∀ x ∈ Run.states steps t, x.Each fun e => Schema.validate e = .ok () := by
  refine Run.invariant_of_guard (G := fun s u => KeepsSchema s u.request) ?_ hrun hs hguard
  intro s u s' hs hu hstep
  rw [hstep]
  exact (handle_traced (svc.withFips u.fips) s u.request).each hs
    fun _ _ hmem => validate_of_written hs hu (written_of_mem hmem)

section Samples

open Tracked (corp corpPerson)

def personEntry : Entry := (Entry.new.set "objectclass" ["person"]).set "cn" ["Alice"]

def personStore : Store :=
  corpStore (OrderedMap.empty.insert (Key.entryKey corp.id (corpPerson "Alice")) (.entry personEntry))

theorem personStore_valid : personStore.Each fun e => Schema.validate e = .ok () := by
  intro ref k e hk
  replace hk : (OrderedMap.empty.insert (Key.entryKey corp.id (corpPerson "Alice"))
    (.entry personEntry)).find? k = some (Value.entry e) := hk
  rw [OrderedMap.find?_insert] at hk
  split at hk
  · cases hk
    rfl
  · cases hk

theorem entries_stay_valid_corp :
    ∃ t, corpService.Serves personStore ⟨true, renameAlice "cn=Bob"⟩ t ∧
      (t.entryAt (corpPerson "Bob")).isSome = true ∧
      t.Each fun e => Schema.validate e = .ok () := by
  have hrun := Run.cons
    (show corpService.Serves personStore ⟨true, renameAlice "cn=Bob"⟩ _ from rfl) (.nil _)
  refine ⟨_, rfl, by decide +kernel,
    entries_stay_valid corpService personStore_valid hrun ?_ _ (Run.last_mem _ _)⟩
  simp only [List.forall_mem_cons]
  refine ⟨?_, by simp⟩
  intro old oldRdn rdn e hold hhead hrdn he
  cases hold
  cases hhead
  cases hrdn
  cases he
  exact validate_renamed_iff.mp rfl

set_option maxRecDepth 4000 in
/-- A rename may drop the last value of a required attribute, or bring in a
class whose required attributes are missing. -/
theorem rename_breaks_schema :
    (∃ t, corpService.Serves personStore ⟨true, renameAlice "ou=Alice"⟩ t ∧
      ¬ t.Each fun e => Schema.validate e = .ok ()) ∧
    ∃ t, corpService.Serves personStore ⟨true, renameAlice "cn=Alice+objectClass=posixAccount"⟩ t ∧
      ¬ t.Each fun e => Schema.validate e = .ok () := by
  refine ⟨⟨_, rfl, fun hs => ?_⟩, ⟨_, rfl, fun hs => ?_⟩⟩
  · have hv := hs corp.cluster (Key.entryKey corp.id ⟨⟨[⟨"ou", "Alice"⟩]⟩ :: corp.baseDn.rdns⟩)
      ((Entry.new.set "objectclass" ["person"]).set "ou" ["Alice"]) rfl
    cases hv
  · have hv := hs corp.cluster (Key.entryKey corp.id
      ⟨⟨[⟨"cn", "Alice"⟩, ⟨"objectclass", "posixAccount"⟩]⟩ :: corp.baseDn.rdns⟩)
      ((Entry.new.set "objectclass" ["person", "posixAccount"]).set "cn" ["Alice"]) rfl
    cases hv

end Samples

end Service

end IronDirectory.Ldap
