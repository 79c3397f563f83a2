import IronDirectory.Defs.Ldap.Rename
import IronDirectory.Defs.Storage.EntryLaws

/-! What a rename does to the values of the entry.  RDNs are compared without
regard to case, the values themselves exactly. -/

namespace IronDirectory.Ldap.Service

open Base Naming Storage

def NamesValue (a : Ava) (attr v : Str) : Prop := attr.asciiLower = a.attr.asciiLower ∧ v = a.value

def stillWanted (newRdn : Rdn) (a : Ava) : Bool :=
  newRdn.avas.any fun b => b.attr == a.attr && b.value.eqIgnoreAsciiCase a.value

/-- The value was there or is named by the new RDN, and it is not an old one to
go. -/
def HoldsAfter (req : ModifyDnRequest) (newRdn oldRdn : Rdn) (e : Entry) (attr v : Str) : Prop :=
  (v ∈ e.valuesOf attr ∨ ∃ b ∈ newRdn.avas, NamesValue b attr v) ∧
    (req.deleteOldRdn = true →
      ∀ a ∈ oldRdn.avas, NamesValue a attr v → stillWanted newRdn a = true)

section Values

variable {attr v : Str}

theorem mem_addAvas {avas : List Ava} {e : Entry} :
    v ∈ (avas.foldl (fun e a => e.addValues a.attr [a.value]) e).valuesOf attr ↔
      v ∈ e.valuesOf attr ∨ ∃ a ∈ avas, NamesValue a attr v := by
  induction avas generalizing e with
  | nil => simp
  | cons a avas ih =>
    rw [List.foldl_cons, ih, Entry.mem_valuesOf_addValues, List.mem_singleton, or_assoc,
      List.exists_mem_cons_iff, ← NamesValue]

theorem mem_dropAvas {wanted : Ava → Bool} {avas : List Ava} {e : Entry} :
    v ∈ (avas.foldl (fun e a => if wanted a then e else e.deleteValues a.attr [a.value])
        e).valuesOf attr ↔
      v ∈ e.valuesOf attr ∧ ∀ a ∈ avas, NamesValue a attr v → wanted a = true := by
  induction avas generalizing e with
  | nil => simp
  | cons a avas ih =>
    have hstep : v ∈ (if wanted a then e else e.deleteValues a.attr [a.value]).valuesOf attr ↔
        v ∈ e.valuesOf attr ∧ (NamesValue a attr v → wanted a = true) := by
      split
      · next hw => simp [hw]
      · next hw =>
        rw [Entry.mem_valuesOf_deleteValues _ _ _ (List.cons_ne_nil _ _), List.mem_singleton]
        simp [hw, NamesValue]
    rw [List.foldl_cons, ih, hstep, List.forall_mem_cons, and_assoc]

theorem mem_renamed {req : ModifyDnRequest} {newRdn oldRdn : Rdn} {e : Entry} :
    v ∈ (renamed req newRdn oldRdn e).valuesOf attr ↔ HoldsAfter req newRdn oldRdn e attr v := by
  rw [renamed, HoldsAfter]
  split
  · next hdel =>
    rw [mem_dropAvas, mem_addAvas]
    simp [hdel, stillWanted]
  · next hdel =>
    rw [mem_addAvas]
    simp [hdel]

end Values

/-- The values follow the RDN: those of the new one are there, those of the old
one are gone if they were to go, no other value came or went, and no two values
differ in case only because of the rename. -/
structure FollowsRdn (deleteOldRdn : Bool) (oldRdn newRdn : Rdn) (before after : Entry) : Prop where
  named : ∀ b ∈ newRdn.avas, b.value ∈ after.valuesOf b.attr
  dropped : deleteOldRdn = true → ∀ a ∈ oldRdn.avas, (∀ b ∈ newRdn.avas, a.norm ≠ b.norm) →
    ∀ w ∈ after.valuesOf a.attr, w.eqIgnoreAsciiCase a.value = false
  framed : ∀ attr v, ¬ (v ∈ before.valuesOf attr ↔ v ∈ after.valuesOf attr) →
    ∃ a ∈ oldRdn.avas ++ newRdn.avas, NamesValue a attr v
  apart : ∀ attr, ∀ v ∈ after.valuesOf attr, ∀ w ∈ after.valuesOf attr,
    v.eqIgnoreAsciiCase w = true → v ≠ w → v ∈ before.valuesOf attr ∧ w ∈ before.valuesOf attr

/-- The RDNs are spelled as the entry holds their values: every value to go is
one of the old RDN to the letter, and a value to come has no other spelling in
the entry or the new RDN. -/
structure SpelledAsHeld (deleteOldRdn : Bool) (oldRdn newRdn : Rdn) (e : Entry) : Prop where
  old : deleteOldRdn = true → ∀ a ∈ oldRdn.avas, (∀ b ∈ newRdn.avas, a.norm ≠ b.norm) →
    ∀ w ∈ e.valuesOf a.attr, w.eqIgnoreAsciiCase a.value = true →
      ∃ a' ∈ oldRdn.avas, a'.attr = a.attr ∧ a'.value = w
  new : ∀ b ∈ newRdn.avas, b.value ∉ e.valuesOf b.attr →
    (∀ w ∈ e.valuesOf b.attr, w.eqIgnoreAsciiCase b.value = false) ∧
      ∀ b' ∈ newRdn.avas, b'.attr = b.attr → b'.value.eqIgnoreAsciiCase b.value = true →
        b'.value = b.value

section Follows

variable {req : ModifyDnRequest} {oldRdn newRdn : Rdn} {e : Entry} {a b : Ava} {attr v w : Str}

theorem stillWanted_iff : stillWanted newRdn a = true ↔
    ∃ b ∈ newRdn.avas, b.attr = a.attr ∧ b.value.eqIgnoreAsciiCase a.value = true := by
  simp [stillWanted]

theorem norm_eq_of_alike (hattr : a.attr = b.attr)
    (hvalue : a.value.eqIgnoreAsciiCase b.value = true) : a.norm = b.norm := by
  rw [Ava.norm, Ava.norm, hattr, Ava.normValue, Ava.normValue, ← Str.trim_asciiLower,
    ← Str.trim_asciiLower, beq_iff_eq.mp hvalue]

theorem NamesValue.attr_eq (hr : newRdn.Wf) (hb : b ∈ newRdn.avas) (ha : a.Wf)
    (h : NamesValue b a.attr v) : b.attr = a.attr := by
  rw [← (hr.avas b hb).attr_lower, ← h.1, ha.attr_lower]

theorem alike_symm (h : v.eqIgnoreAsciiCase w = true) : w.eqIgnoreAsciiCase v = true :=
  beq_iff_eq.mpr (beq_iff_eq.mp h).symm

theorem alike_trans {x : Str} (h : v.eqIgnoreAsciiCase w = true)
    (h' : w.eqIgnoreAsciiCase x = true) : v.eqIgnoreAsciiCase x = true :=
  beq_iff_eq.mpr ((beq_iff_eq.mp h).trans (beq_iff_eq.mp h'))

-- An old value in whatever case of a new one is still wanted.
theorem stillWanted_of_names (hold : oldRdn.Wf) (hnew : newRdn.Wf) (hb : b ∈ newRdn.avas)
    (ha : a ∈ oldRdn.avas) (hn : NamesValue a b.attr v) (h : v.eqIgnoreAsciiCase b.value = true) :
    stillWanted newRdn a = true :=
  stillWanted_iff.mpr ⟨b, hb, (hn.attr_eq hold ha (hnew.avas b hb)).symm, hn.2 ▸ alike_symm h⟩

theorem mem_renamed_of_alike (hold : oldRdn.Wf) (hnew : newRdn.Wf) (hb : b ∈ newRdn.avas)
    (hv : v ∈ e.valuesOf b.attr ∨ v = b.value) (h : v.eqIgnoreAsciiCase b.value = true) :
    v ∈ (renamed req newRdn oldRdn e).valuesOf b.attr :=
  mem_renamed.mpr ⟨hv.imp_right fun heq => ⟨b, hb, rfl, heq⟩,
    fun _ _ ha hn => stillWanted_of_names hold hnew hb ha hn h⟩

theorem renamed_framed (attr v : Str)
    (h : ¬ (v ∈ e.valuesOf attr ↔ v ∈ (renamed req newRdn oldRdn e).valuesOf attr)) :
    ∃ a ∈ oldRdn.avas ++ newRdn.avas, NamesValue a attr v := by
  rw [mem_renamed, HoldsAfter] at h
  by_contra hnone
  simp only [List.mem_append, not_exists, not_and] at hnone
  refine h ⟨fun hv => ⟨.inl hv, fun _ a ha hn => absurd hn (hnone a (.inl ha))⟩, ?_⟩
  rintro ⟨hv | ⟨b, hb, hn⟩, -⟩
  · exact hv
  · exact absurd hn (hnone b (.inr hb))

theorem renamed_dropped_iff (hold : oldRdn.Wf) (hnew : newRdn.Wf) (hdel : req.deleteOldRdn = true)
    (ha : a ∈ oldRdn.avas) (hother : ∀ b ∈ newRdn.avas, a.norm ≠ b.norm) :
    (∀ w ∈ (renamed req newRdn oldRdn e).valuesOf a.attr, w.eqIgnoreAsciiCase a.value = false) ↔
      ∀ w ∈ e.valuesOf a.attr, w.eqIgnoreAsciiCase a.value = true →
        ∃ a' ∈ oldRdn.avas, a'.attr = a.attr ∧ a'.value = w := by
  have hwf := hold.avas a ha
  constructor
  · intro hdrop w hw halike
    by_contra hnone
    have hkept : w ∈ (renamed req newRdn oldRdn e).valuesOf a.attr := by
      refine mem_renamed.mpr ⟨.inl hw, fun _ a' ha' hn => ?_⟩
      exact absurd ⟨a', ha', hn.attr_eq hold ha' hwf, hn.2.symm⟩ hnone
    exact Bool.false_ne_true ((hdrop w hkept).symm.trans halike)
  · intro hspelled w hw
    by_contra halike
    rw [Bool.not_eq_false] at halike
    obtain ⟨hfrom, hkept⟩ := mem_renamed.mp hw
    obtain ⟨b, hb, hattr, hvalue⟩ : ∃ b ∈ newRdn.avas, b.attr = a.attr ∧
        b.value.eqIgnoreAsciiCase w = true := by
      cases hfrom with
      | inl hmem =>
        obtain ⟨a', ha', hattr, rfl⟩ := hspelled w hmem halike
        obtain ⟨b, hb, hb', hvalue⟩ :=
          stillWanted_iff.mp (hkept hdel a' ha' ⟨by rw [hattr], rfl⟩)
        exact ⟨b, hb, hb'.trans hattr, hvalue⟩
      | inr hnamed =>
        obtain ⟨b, hb, hn⟩ := hnamed
        exact ⟨b, hb, hn.attr_eq hnew hb hwf, by rw [hn.2]; exact beq_self_eq_true _⟩
    exact hother b hb (norm_eq_of_alike hattr (alike_trans hvalue halike)).symm

theorem renamed_apart_iff (hold : oldRdn.Wf) (hnew : newRdn.Wf) :
    (∀ attr, ∀ v ∈ (renamed req newRdn oldRdn e).valuesOf attr,
        ∀ w ∈ (renamed req newRdn oldRdn e).valuesOf attr, v.eqIgnoreAsciiCase w = true → v ≠ w →
          v ∈ e.valuesOf attr ∧ w ∈ e.valuesOf attr) ↔
      ∀ b ∈ newRdn.avas, b.value ∉ e.valuesOf b.attr →
        (∀ w ∈ e.valuesOf b.attr, w.eqIgnoreAsciiCase b.value = false) ∧
          ∀ b' ∈ newRdn.avas, b'.attr = b.attr → b'.value.eqIgnoreAsciiCase b.value = true →
            b'.value = b.value := by
  constructor
  · intro hapart b hb habsent
    have hself : ∀ b ∈ newRdn.avas, b.value ∈ (renamed req newRdn oldRdn e).valuesOf b.attr :=
      fun b hb => mem_renamed_of_alike hold hnew hb (.inr rfl) (beq_self_eq_true _)
    have hbmem := hself b hb
    refine ⟨fun w hw => ?_, fun b' hb' hattr halike => ?_⟩
    · by_contra halike
      rw [Bool.not_eq_false] at halike
      have hwmem : w ∈ (renamed req newRdn oldRdn e).valuesOf b.attr :=
        mem_renamed_of_alike hold hnew hb (.inl hw) halike
      have hne : w ≠ b.value := fun heq => habsent (heq ▸ hw)
      exact habsent (hapart b.attr w hwmem b.value hbmem halike hne).2
    · by_contra hne
      have hbmem' := hself b' hb'
      rw [hattr] at hbmem'
      exact habsent (hapart b.attr b'.value hbmem' b.value hbmem halike hne).2
  · intro hspelled
    -- Both of two such values come from the entry: one half, for each.
    have hhalf : ∀ attr v w, v ∈ (renamed req newRdn oldRdn e).valuesOf attr →
        w ∈ (renamed req newRdn oldRdn e).valuesOf attr → w.eqIgnoreAsciiCase v = true → w ≠ v →
          v ∈ e.valuesOf attr := by
      intro attr v w hv hw halike hne
      by_contra habsent
      obtain ⟨b, hb, hattr, rfl⟩ := (mem_renamed.mp hv).1.resolve_left habsent
      rw [Entry.valuesOf_congr hattr] at habsent
      obtain ⟨hentry, hrdn⟩ := hspelled b hb habsent
      cases (mem_renamed.mp hw).1 with
      | inl hmem =>
        rw [Entry.valuesOf_congr hattr] at hmem
        exact Bool.false_ne_true ((hentry w hmem).symm.trans halike)
      | inr hnamed =>
        obtain ⟨b', hb', hn⟩ := hnamed
        have hattr' : b'.attr = b.attr :=
          NamesValue.attr_eq hnew hb' (hnew.avas b hb) ⟨hattr.symm.trans hn.1, hn.2⟩
        exact hne (hn.2.trans (hrdn b' hb' hattr' (hn.2 ▸ halike)))
    intro attr v hv w hw halike hne
    exact ⟨hhalf attr v w hv hw (alike_symm halike) hne.symm, hhalf attr w v hw hv halike hne⟩

theorem followsRdn_renamed_iff (hold : oldRdn.Wf) (hnew : newRdn.Wf) :
    FollowsRdn req.deleteOldRdn oldRdn newRdn e (renamed req newRdn oldRdn e) ↔
      SpelledAsHeld req.deleteOldRdn oldRdn newRdn e := by
  constructor
  · intro h
    refine ⟨fun hdel a ha hother => ?_, (renamed_apart_iff hold hnew).mp h.apart⟩
    exact (renamed_dropped_iff hold hnew hdel ha hother).mp (h.dropped hdel a ha hother)
  · intro h
    refine ⟨fun b hb => ?_, fun hdel a ha hother => ?_, renamed_framed,
      (renamed_apart_iff hold hnew).mpr h.new⟩
    · exact mem_renamed_of_alike hold hnew hb (.inr rfl) (beq_self_eq_true _)
    · exact (renamed_dropped_iff hold hnew hdel ha hother).mpr (h.old hdel a ha hother)

end Follows

/-- After a rename that succeeds, the values of the entry follow its RDN
exactly if the RDNs are spelled as the entry held their values. -/
theorem followsRdn_iff (svc : Service) (store : Store) (req : ModifyDnRequest)
    (hok : (svc.handleModDn store req).result.resultCode = .success) :
    ∃ old oldRdn newRdn before new after,
      Dn.parse req.entry = .ok old ∧ old.rdns.head? = some oldRdn ∧
      Dn.parse req.newRdn = .ok ⟨[newRdn]⟩ ∧ store.getEntry old = .ok (some before) ∧
      (∀ dn e, (dn, some e) ∈ (svc.handleModDn store req).writes ↔ dn = new ∧ e = after) ∧
      (FollowsRdn req.deleteOldRdn oldRdn newRdn before after ↔
        SpelledAsHeld req.deleteOldRdn oldRdn newRdn before) := by
  obtain ⟨old, new, e, store₁, hc, -, hwrites, -⟩ := success_cases hok
  obtain ⟨oldRdn, rdn, parent, before, hold, hhead, -, hrdn, -, -, -, hbefore, rfl, -⟩ := hc
  have hwf : oldRdn.Wf := Dn.parse_wf hold oldRdn (List.mem_of_mem_head? hhead)
  have hwf' : rdn.Wf := Dn.parse_wf hrdn rdn List.mem_cons_self
  exact ⟨old, oldRdn, rdn, before, new, _, hold, hhead, hrdn, hbefore, hwrites,
    followsRdn_renamed_iff hwf hwf'⟩

section Samples

def renameLowered (newRdn : Str) : ModifyDnRequest :=
  ⟨"cn=alice,ou=people,dc=corp", newRdn, true, none⟩

def aliceValues : Entry := Entry.new.set "cn" ["Alice"]

theorem spelledAsHeld_bob :
    SpelledAsHeld true ⟨[⟨"cn", "Alice"⟩]⟩ ⟨[⟨"cn", "Bob"⟩]⟩ aliceValues := by
  have hvalues : aliceValues.valuesOf "cn" = [Str.ofString "Alice"] := by decide
  constructor
  · intro _ a ha _ w hw _
    obtain rfl := List.mem_singleton.mp ha
    rw [hvalues, List.mem_singleton] at hw
    exact ⟨_, ha, rfl, hw.symm⟩
  · intro b hb _
    obtain rfl := List.mem_singleton.mp hb
    refine ⟨fun w hw => ?_, fun b' hb' _ _ => ?_⟩
    · rw [hvalues, List.mem_singleton] at hw
      rw [hw]
      decide
    · rw [List.mem_singleton.mp hb']

set_option maxRecDepth 2000 in
theorem followsRdn_bob :
    ∃ new after, (new, some after) ∈
        (corpService.handleModDn peopleStore (renamePerson "cn=Bob")).writes ∧
      FollowsRdn true ⟨[⟨"cn", "Alice"⟩]⟩ ⟨[⟨"cn", "Bob"⟩]⟩ aliceValues after := by
  obtain ⟨old, oldRdn, newRdn, before, new, after, hold, hhead, hrdn, hbefore, hwrites, hiff⟩ :=
    followsRdn_iff corpService peopleStore (renamePerson "cn=Bob") (by decide +kernel)
  have hold' : Dn.parse (renamePerson "cn=Bob").entry = .ok peopleAlice := rfl
  have hrdn' : Dn.parse (renamePerson "cn=Bob").newRdn = .ok ⟨[⟨[⟨"cn", "Bob"⟩]⟩]⟩ := rfl
  have hbefore' : peopleStore.getEntry peopleAlice = .ok (some aliceValues) := rfl
  cases hold'.symm.trans hold
  cases hrdn'.symm.trans hrdn
  cases hbefore'.symm.trans hbefore
  cases hhead
  exact ⟨new, after, (hwrites new after).mpr ⟨rfl, rfl⟩, hiff.mpr spelledAsHeld_bob⟩

/-- Spelled in another case, the old value stays; and a rename that only
changes the case leaves both spellings. -/
theorem not_followsRdn_case :
    (corpService.handleModDn peopleStore (renameLowered "cn=Bob")).result = .success ∧
      (corpService.handleModDn peopleStore (renameLowered "cn=Bob")).writes.map
          (fun w => w.2.map fun e => e.valuesOf "cn") = [some (["Alice", "Bob"] : List Str), none] ∧
      ¬ FollowsRdn true ⟨[⟨"cn", "alice"⟩]⟩ ⟨[⟨"cn", "Bob"⟩]⟩ aliceValues
        (renamed (renameLowered "cn=Bob") ⟨[⟨"cn", "Bob"⟩]⟩ ⟨[⟨"cn", "alice"⟩]⟩ aliceValues) ∧
      (corpService.handleModDn peopleStore (renamePerson "cn=ALICE")).result = .success ∧
      (corpService.handleModDn peopleStore (renamePerson "cn=ALICE")).writes.map
          (fun w => w.2.map fun e => e.valuesOf "cn") = [some (["Alice", "ALICE"] : List Str)] := by
  refine ⟨by decide +kernel, by decide +kernel, ?_, by decide +kernel, by decide +kernel⟩
  intro h
  have hother : ∀ b ∈ (⟨[⟨"cn", "Bob"⟩]⟩ : Rdn).avas, Ava.norm ⟨"cn", "alice"⟩ ≠ b.norm := by decide
  have hdropped := h.dropped rfl ⟨"cn", "alice"⟩ List.mem_cons_self hother "Alice" (by decide)
  exact absurd hdropped (by decide)

end Samples

end IronDirectory.Ldap.Service
