import IronDirectory.Defs.Ldap.Targets
import IronDirectory.Defs.Naming.DnText

namespace IronDirectory.Ldap.Service

open Base Naming Storage Escape

structure Asks (req : ModifyDnRequest) (old : Dn) (rdn : Rdn) (parent : Dn) : Prop where
  entry : Dn.parse req.entry = .ok old
  newRdn : Dn.parse req.newRdn = .ok ⟨[rdn]⟩
  newParent : Service.newParent req old = .ok parent

/-- The entry of `old`, with the values of its new RDN, was stored under `want`
and is there. -/
def EndsAt (svc : Service) (store : Store) (req : ModifyDnRequest) (old : Dn) (rdn : Rdn)
    (want : Dn) : Prop :=
  ∃ oldRdn e₀ dn, old.rdns.head? = some oldRdn ∧ store.getEntry old = .ok (some e₀) ∧
    (dn, some (renamed req rdn oldRdn e₀)) ∈ (svc.handleModDn store req).writes ∧ dn.Same want ∧
    (svc.handleModDn store req).store.entryAt want = some (.entry (renamed req rdn oldRdn e₀))

variable {svc : Service} {store : Store} {req : ModifyDnRequest} {old new parent : Dn} {rdn : Rdn}

theorem newParent_wf (hold : Dn.parse req.entry = .ok old)
    (hpar : newParent req old = .ok parent) : parent.Wf := by
  unfold newParent at hpar
  split at hpar
  · exact Dn.parse_wf (Outcome.mapError_eq_ok.mp hpar)
  · cases hpar
    have hwf := Dn.parse_wf hold
    obtain ⟨rdns⟩ := old
    cases rdns with
    | nil => exact hwf
    | cons r rdns => exact fun r' hr' => hwf r' (List.mem_cons_of_mem _ hr')

theorem Asks.same_iff (h : Asks req old rdn parent)
    (hnew : Dn.parse (newDnStr req parent) = .ok new) :
    new.Same ⟨rdn :: parent.rdns⟩ ↔
      parent.rdns = [] ∨ (after false req.newRdn = false ∧ parent.Displays) := by
  rw [newDnStr, Dn.isEmpty] at hnew
  split at hnew
  · next hempty =>
    have hnil : parent.rdns = [] := List.isEmpty_iff.mp hempty
    cases h.newRdn.symm.trans hnew
    simp only [hnil, true_or, iff_true]
    rfl
  · next hempty =>
    have hne : parent.rdns ≠ [] := fun hnil => hempty (List.isEmpty_iff.mpr hnil)
    rw [Dn.same_of_parse_prefixed_iff h.newRdn (newParent_wf h.entry h.newParent) hne hnew]
    simp [hne]

theorem success_cases (hok : (svc.handleModDn store req).result.resultCode = .success) :
    ∃ old new e store₁, svc.MoveCarried store req old new e ∧
      store.putEntry new e svc.indexSpec = .ok store₁ ∧
      (∀ dn e', (dn, some e') ∈ (svc.handleModDn store req).writes ↔ dn = new ∧ e' = e) ∧
      ((old.Same new ∧ (svc.handleModDn store req).store = store₁) ∨
        (¬ old.Same new ∧ store₁.deleteEntry old svc.indexSpec =
          .ok (svc.handleModDn store req).store)) := by
  have hcase := handleModDn_cases svc store req
  generalize svc.handleModDn store req = u at hok hcase
  cases hcase with
  | refused hfails => exact absurd hok hfails
  | kept hc hput hsame => exact ⟨_, _, _, _, hc, hput, by simp, .inl ⟨hsame, rfl⟩⟩
  | moved hc hput hsame hdel => exact ⟨_, _, _, _, hc, hput, by simp, .inr ⟨hsame, hdel⟩⟩
  | doubled _ _ _ _ hfails => exact absurd hok hfails

/-- The old name's key is not the new one's, unless the names are the same. -/
def KeepsApart (store : Store) (old want : Dn) : Prop :=
  old.Same want ∨ want.path ≠ old.path ∨
    store.registry.resolve want ≠ store.registry.resolve old

/-- A rename that succeeds leaves the entry at the name asked for exactly when
the new name is read as that one and its key is not the one then removed. -/
theorem endsAt_iff (svc : Service) (store : Store) (req : ModifyDnRequest)
    (hok : (svc.handleModDn store req).result.resultCode = .success) :
    ∃ old rdn parent, Asks req old rdn parent ∧
      (svc.EndsAt store req old rdn ⟨rdn :: parent.rdns⟩ ↔
        (parent.rdns = [] ∨ (after false req.newRdn = false ∧ parent.Displays)) ∧
          KeepsApart store old ⟨rdn :: parent.rdns⟩) := by
  obtain ⟨old, new, e, store₁, hc, hput, hwrites, hend⟩ := success_cases hok
  obtain ⟨oldRdn, rdn, parent, e₀, hold, hhead, -, hrdn, hpar, hnew, -, he, heq, -⟩ := hc
  have hasks : Asks req old rdn parent := ⟨hold, hrdn, hpar⟩
  refine ⟨old, rdn, parent, hasks, ?_⟩
  rw [← hasks.same_iff hnew]
  have hwrote := Store.wrote_putEntry hput
  generalize (⟨rdn :: parent.rdns⟩ : Dn) = want
  constructor
  · rintro ⟨oldRdn', e₀', dn, hhead', he', hmem, hsame, hat⟩
    obtain ⟨rfl, -⟩ := (hwrites _ _).mp hmem
    refine ⟨hsame, ?_⟩
    by_contra hkeep
    simp only [KeepsApart, not_or, not_not] at hkeep
    obtain ⟨hne, hpath, hreg⟩ := hkeep
    obtain ⟨hold', -⟩ | ⟨-, hdel⟩ := hend
    · exact hne (hold'.trans hsame)
    · have hgone := (Store.wrote_deleteEntry hdel).entryAt_self
      rw [← hwrote.registry] at hreg
      rw [← (Store.wrote_deleteEntry hdel).registry] at hreg
      rw [Store.entryAt_eq_of_path hreg hpath, hgone] at hat
      cases hat
  · rintro ⟨hsame, hkeep⟩
    refine ⟨oldRdn, e₀, new, hhead, he, (hwrites _ _).mpr ⟨rfl, heq.symm⟩, hsame, ?_⟩
    have hstored : store₁.entryAt want = some (.entry (renamed req rdn oldRdn e₀)) := by
      rw [← Store.entryAt_congr hsame, hwrote.entryAt_self, heq]
      rfl
    obtain ⟨-, hstore⟩ | ⟨hne, hdel⟩ := hend
    · rw [hstore, hstored]
    · rw [(Store.wrote_deleteEntry hdel).entryAt_of_ne, hstored]
      rw [hwrote.registry]
      obtain hsame' | hpath | hreg := hkeep
      · exact absurd (hsame'.trans hsame.symm) hne
      · exact .inr hpath
      · exact .inl hreg

section Samples

open Tracked (corp)

def people : Dn := ⟨[⟨[⟨"ou", "people"⟩]⟩, ⟨[⟨"dc", "corp"⟩]⟩]⟩

def peopleAlice : Dn := ⟨⟨[⟨"cn", "Alice"⟩]⟩ :: people.rdns⟩

def peopleStore : Store :=
  corpStore (OrderedMap.empty.insert (Key.entryKey corp.id peopleAlice)
    (.entry (Entry.new.set "cn" ["Alice"])))

def renamePerson (newRdn : Str) : ModifyDnRequest :=
  ⟨"cn=Alice,ou=people,dc=corp", newRdn, true, none⟩

theorem Asks.unique {old' parent' : Dn} {rdn' : Rdn} (h : Asks req old rdn parent)
    (h' : Asks req old' rdn' parent') : old = old' ∧ rdn = rdn' ∧ parent = parent' := by
  obtain rfl : old = old' := by simpa using h.entry.symm.trans h'.entry
  have hrdn := h.newRdn.symm.trans h'.newRdn
  have hparent := h.newParent.symm.trans h'.newParent
  simp_all

theorem endsAt_bob :
    corpService.EndsAt peopleStore (renamePerson "cn=Bob") peopleAlice ⟨[⟨"cn", "Bob"⟩]⟩
      ⟨⟨[⟨"cn", "Bob"⟩]⟩ :: people.rdns⟩ := by
  obtain ⟨old, rdn, parent, hasks, hiff⟩ :=
    endsAt_iff corpService peopleStore (renamePerson "cn=Bob") (by decide +kernel)
  have hbob : Asks (renamePerson "cn=Bob") peopleAlice ⟨[⟨"cn", "Bob"⟩]⟩ people := ⟨rfl, rfl, rfl⟩
  obtain ⟨rfl, rfl, rfl⟩ := hasks.unique hbob
  exact hiff.mpr ⟨.inr ⟨by decide, _, rfl, rfl⟩, .inr (.inl (by decide))⟩

/-- A new RDN that ends in a backslash takes the comma before the parent with
it: the entry leaves `ou=people`. -/
theorem not_endsAt_open_rdn :
    (corpService.handleModDn peopleStore (renamePerson "cn=Bob\\")).result = .success ∧
      Asks (renamePerson "cn=Bob\\") peopleAlice ⟨[⟨"cn", "Bob\\"⟩]⟩ people ∧
      ¬ corpService.EndsAt peopleStore (renamePerson "cn=Bob\\") peopleAlice ⟨[⟨"cn", "Bob\\"⟩]⟩
        ⟨⟨[⟨"cn", "Bob\\"⟩]⟩ :: people.rdns⟩ := by
  refine ⟨by decide +kernel, ⟨rfl, rfl, rfl⟩, ?_⟩
  rintro ⟨_, _, dn, -, -, hmem, hsame, -⟩
  have hnames : (corpService.handleModDn peopleStore (renamePerson "cn=Bob\\")).writes.map Prod.fst =
      [⟨[⟨[⟨"cn", "Bob,ou=people"⟩]⟩, ⟨[⟨"dc", "corp"⟩]⟩]⟩, peopleAlice] := by
    decide +kernel
  have hdn := List.mem_map_of_mem (f := Prod.fst) hmem
  rw [hnames] at hdn
  simp only [List.mem_cons, List.not_mem_nil, or_false] at hdn
  obtain rfl | rfl := hdn
  · exact absurd hsame (by decide)
  · exact absurd hsame (by decide)

end Samples

end IronDirectory.Ldap.Service
