import IronDirectory.Defs.Ldap.UpdateCases

namespace IronDirectory.Ldap

open Base Naming Storage

def Vacant (store : Store) (dn : Dn) : Prop := store.entryAt dn = none

def ModifyDnRequest.MovesTo (req : ModifyDnRequest) (old new : Dn) : Prop :=
  ∃ parent, Service.newParent req old = .ok parent ∧
    Dn.parse (Service.newDnStr req parent) = .ok new

def UpdateRequest.Targets : UpdateRequest → Option Dn → Dn → Prop
  | .add _ req, none, dn => Dn.parse req.entry = .ok dn
  | .modDn req, some old, dn => Dn.parse req.entry = .ok old ∧ req.MovesTo old dn
  | _, _, _ => False

namespace Service

variable {svc : Service} {store : Store}

theorem MoveCarried.movesTo {req : ModifyDnRequest} {old new : Dn} {e : Entry}
    (h : svc.MoveCarried store req old new e) :
    Dn.parse req.entry = .ok old ∧ req.MovesTo old new := by
  obtain ⟨_, _, parent, _, hold, -, -, -, hpar, hnew, -⟩ := h
  exact ⟨hold, parent, hpar, hnew⟩

theorem movesTo_unique {req : ModifyDnRequest} {old new new' : Dn} (h : req.MovesTo old new)
    (h' : req.MovesTo old new') : new = new' := by
  obtain ⟨parent, hpar, hnew⟩ := h
  obtain ⟨parent', hpar', hnew'⟩ := h'
  cases hpar.symm.trans hpar'
  cases hnew.symm.trans hnew'
  rfl

/-- A request that does not rename an entry to its own name succeeds only on a
vacant target; what an occupied target holds stays, and the request fails. -/
def Spares (svc : Service) (store : Store) (req : UpdateRequest) : Prop :=
  ∀ src dn, req.Targets src dn → (∀ old, src = some old → ¬ old.Same dn) →
    ((svc.handle store req).result.resultCode = .success → Vacant store dn) ∧
    (¬ Vacant store dn → (svc.handle store req).store.entryAt dn = store.entryAt dn ∧
      (svc.handle store req).result.Fails)

/-- Nothing stands at the target of a request that would be carried out, or the
very entry it writes does and the old one cannot be removed. -/
def Uncontested (svc : Service) (store : Store) : UpdateRequest → Prop
  | .add draw req => ∀ dn e, svc.AddCarried draw store req dn e → Vacant store dn
  | .modDn req => ∀ old new e, svc.MoveCarried store req old new e →
      old.Same new ∨ Vacant store new ∨
        (store.entryAt new = some (.entry e) ∧ ¬ store.Removable old svc.indexSpec)
  | _ => True

theorem spares_add_iff {draw : Nat → Nat → Nat} {req : AddRequest} :
    svc.Spares store (.add draw req) ↔ svc.Uncontested store (.add draw req) := by
  have hcase := handleAdd_cases svc draw store req
  unfold Spares
  rw [handle]
  generalize svc.handleAdd draw store req = u at hcase
  constructor
  · intro h dn e hc
    have htgt : UpdateRequest.Targets (.add draw req) none dn := by
      obtain ⟨_, _, hdn, -⟩ := hc
      exact hdn
    have hother : ∀ old : Dn, none = some old → ¬ old.Same dn := fun _ hsome => by cases hsome
    apply (h none dn htgt hother).1
    cases hcase with
    | refused _ hno => exact absurd hc (hno dn e)
    | stored => rfl
  · rintro h (_ | _) dn htgt -
    · cases hcase with
      | refused hfails _ halike =>
        exact ⟨fun hok => absurd hok hfails, fun _ => ⟨halike.entryAt dn, hfails⟩⟩
      | stored hc =>
        obtain ⟨_, _, hdn, -⟩ := id hc
        cases htgt.symm.trans hdn
        exact ⟨fun _ => h _ _ hc, fun hv => absurd (h _ _ hc) hv⟩
    · exact absurd htgt id

theorem MoveCarried.unique {req : ModifyDnRequest} {old new old' new' : Dn} {e e' : Entry}
    (h : svc.MoveCarried store req old new e) (h' : svc.MoveCarried store req old' new' e') :
    old = old' ∧ new = new' ∧ e = e' := by
  cases (moveCarried_iff.mp h).1.symm.trans (moveCarried_iff.mp h').1
  exact ⟨rfl, rfl, rfl⟩

theorem MoveCarried.of_targets {req : ModifyDnRequest} {old new old' new' : Dn} {e : Entry}
    (h : svc.MoveCarried store req old new e)
    (h' : UpdateRequest.Targets (.modDn req) (some old') new') : old = old' ∧ new = new' := by
  obtain ⟨hold, hnew⟩ := h.movesTo
  cases hold.symm.trans h'.1
  exact ⟨rfl, movesTo_unique hnew h'.2⟩

theorem spares_modDn_iff {req : ModifyDnRequest} :
    svc.Spares store (.modDn req) ↔ svc.Uncontested store (.modDn req) := by
  have hcase := handleModDn_cases svc store req
  unfold Spares
  rw [handle]
  generalize svc.handleModDn store req = u at hcase
  constructor
  · intro h old new e hc
    by_cases hsame : old.Same new
    · exact .inl hsame
    by_cases hv : Vacant store new
    · exact .inr (.inl hv)
    obtain ⟨hkeep, hfails⟩ :=
      (h (some old) new hc.movesTo fun _ ho => Option.some.inj ho ▸ hsame).2 hv
    refine .inr (.inr ?_)
    cases hcase with
    | refused _ hno => exact absurd hc (hno old new e)
    | kept hc' _ hsame' =>
      obtain ⟨rfl, rfl, -⟩ := hc.unique hc'
      exact absurd hsame' hsame
    | moved => exact absurd hfails LdapResult.not_fails_success
    | doubled hc' hput _ hrem =>
      obtain ⟨rfl, rfl, rfl⟩ := hc.unique hc'
      have hat : store.entryAt new = some (.entry e) := by
        rw [← hkeep]
        exact (Store.wrote_putEntry hput).entryAt_self
      exact ⟨hat, fun hr => hrem ((Store.alike_putEntry hput hat).removable.mpr hr)⟩
  · rintro h (_ | old) dn htgt hsrc
    · exact absurd htgt id
    have hcond : ∀ {old' new e}, svc.MoveCarried store req old' new e →
        old' = old ∧ new = dn ∧ (Vacant store dn ∨
          (store.entryAt dn = some (.entry e) ∧ ¬ store.Removable old svc.indexSpec)) := by
      intro old' new e hc
      obtain ⟨rfl, rfl⟩ := hc.of_targets htgt
      exact ⟨rfl, rfl, (h _ _ _ hc).resolve_left (hsrc _ rfl)⟩
    cases hcase with
    | refused hfails => exact ⟨fun hok => absurd hok hfails, fun _ => ⟨rfl, hfails⟩⟩
    | kept hc _ hsame =>
      obtain ⟨rfl, rfl, -⟩ := hcond hc
      exact absurd hsame (hsrc _ rfl)
    | moved hc hput _ hdel =>
      obtain ⟨rfl, rfl, hv | ⟨hat, hrem⟩⟩ := hcond hc
      · exact ⟨fun _ => hv, fun hn => absurd hv hn⟩
      · refine absurd ?_ hrem
        rw [← (Store.alike_putEntry hput hat).removable]
        exact Store.deleteEntry_ok_iff.mp ⟨_, hdel⟩
    | doubled hc hput _ _ hfails =>
      obtain ⟨rfl, rfl, hv | ⟨hat, -⟩⟩ := hcond hc
      · exact ⟨fun _ => hv, fun hn => absurd hv hn⟩
      · exact ⟨fun hok => absurd hok hfails,
          fun _ => ⟨(Store.alike_putEntry hput hat).entryAt _, hfails⟩⟩

/-- Adds and renames spare what is stored exactly when their targets are
uncontested: nothing checks the target before the write. -/
theorem spares_iff_uncontested (svc : Service) (store : Store) (req : UpdateRequest) :
    svc.Spares store req ↔ svc.Uncontested store req := by
  have hnone : (∀ src dn, ¬ req.Targets src dn) → (svc.Spares store req ↔ True) := fun h =>
    iff_true_intro fun src dn htgt => absurd htgt (h src dn)
  cases req with
  | add draw req => exact spares_add_iff
  | modDn req => exact spares_modDn_iff
  | delete => exact hnone fun _ _ => id
  | modify => exact hnone fun _ _ => id
  | passwordModify => exact hnone fun _ _ => id

section Samples

open Tracked (corp corpPerson)

def corpPeople : Store :=
  corpStore ((OrderedMap.empty.insert (Key.entryKey corp.id (corpPerson "Alice"))
    (.entry (Tracked.withMail "alice@corp"))).insert (Key.entryKey corp.id (corpPerson "Bob"))
      (.entry (Tracked.withMail "bob@corp")))

/-- An Add of a name that is taken and a rename to one succeed, and the entry
that was there is gone. -/
theorem corpPeople_not_spared :
    ¬ corpService.Spares corpPeople
        (.add (fun _ _ => 0) ⟨"cn=Alice,dc=corp", [⟨"cn", [Str.toUtf8 "Alice"]⟩]⟩) ∧
      ¬ corpService.Spares corpPeople (.modDn ⟨"cn=Alice,dc=corp", "cn=Bob", true, none⟩) := by
  constructor
  · intro h
    have hv := (h none (corpPerson "Alice") rfl nofun).1 (by decide +kernel)
    exact absurd (congrArg Option.isNone hv) (by decide +kernel)
  · intro h
    have hv := (h (some (corpPerson "Alice")) (corpPerson "Bob") ⟨rfl, _, rfl, rfl⟩
      (by simp; decide)).1 (by decide +kernel)
    exact absurd (congrArg Option.isNone hv) (by decide +kernel)

end Samples

end Service

end IronDirectory.Ldap
