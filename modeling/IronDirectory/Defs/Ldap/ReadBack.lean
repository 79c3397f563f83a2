import IronDirectory.Defs.Base.Utf8Laws
import IronDirectory.Defs.Ldap.SearchLaws
import IronDirectory.Defs.Ldap.UpdateCases
import IronDirectory.Defs.Naming.Subtree

namespace IronDirectory.Ldap

open Base Crypto Kerberos Naming Storage Outcome

section Values

def roundTrip (attr : Str) (v : Bytes) : Bytes := SearchRequest.wire attr (Utf8.fromUtf8Lossy v)

/-- The value is text, and under an attribute kept in base 64 it is not itself
base 64. -/
structure ReadsBack (attr : Str) (v : Bytes) : Prop where
  valid : Utf8.Valid v
  plain : isBinaryAttr attr = true → v = [] ∨ Base64.decode (Utf8.fromUtf8Lossy v) = none

variable {attr : Str} {v : Bytes}

theorem roundTrip_of_not_binary (h : isBinaryAttr attr = false) :
    roundTrip attr v = (Utf8.fromUtf8Lossy v).toUtf8 := by
  simp [roundTrip, SearchRequest.wire, h]

theorem roundTrip_of_binary (h : isBinaryAttr attr = true) :
    roundTrip attr v =
      (Base64.decode (Utf8.fromUtf8Lossy v)).getD (Utf8.fromUtf8Lossy v).toUtf8 := by
  simp [roundTrip, SearchRequest.wire, h, decodeBinaryAttr]

theorem roundTrip_cases (attr : Str) (v : Bytes) :
    roundTrip attr v = v ∨ roundTrip attr (roundTrip attr v) = roundTrip attr v ∨
      (roundTrip attr v).length < v.length := by
  cases hbinary : isBinaryAttr attr with
  | false =>
    refine .inr (.inl ?_)
    rw [roundTrip_of_not_binary hbinary, roundTrip_of_not_binary hbinary, Utf8.fromUtf8Lossy_toUtf8]
  | true =>
    cases hdecode : Base64.decode (Utf8.fromUtf8Lossy v) with
    | none =>
      have hback : roundTrip attr v = (Utf8.fromUtf8Lossy v).toUtf8 := by
        rw [roundTrip_of_binary hbinary, hdecode]
        rfl
      refine .inr (.inl ?_)
      rw [hback, roundTrip_of_binary hbinary, Utf8.fromUtf8Lossy_toUtf8, hdecode]
      rfl
    | some bs =>
      have hback : roundTrip attr v = bs := by
        rw [roundTrip_of_binary hbinary, hdecode]
        rfl
      have hlossy := Utf8.length_fromUtf8Lossy_le v
      rw [hback]
      obtain hempty | hlt := Base64.length_lt_of_decode hdecode
      · rw [hempty] at hdecode
        cases hdecode
        cases v with
        | nil => exact .inl rfl
        | cons b v => exact .inr (.inr (by simp))
      · exact .inr (.inr (by omega))

theorem roundTrip_eq_iff : roundTrip attr v = v ↔ ReadsBack attr v := by
  cases hbinary : isBinaryAttr attr with
  | false =>
    rw [roundTrip_of_not_binary hbinary, ← Utf8.valid_iff]
    exact ⟨fun h => ⟨h, by simp [hbinary]⟩, ReadsBack.valid⟩
  | true =>
    rw [roundTrip_of_binary hbinary]
    constructor
    · intro h
      cases hdecode : Base64.decode (Utf8.fromUtf8Lossy v) with
      | none =>
        rw [hdecode] at h
        exact ⟨Utf8.valid_iff.mpr h, fun _ => .inr hdecode⟩
      | some bs =>
        rw [hdecode] at h
        obtain rfl : bs = v := h
        have hlossy := Utf8.length_fromUtf8Lossy_le bs
        obtain hempty | hlt := Base64.length_lt_of_decode hdecode
        · rw [hempty] at hdecode
          cases hdecode
          exact ⟨⟨[], rfl⟩, fun _ => .inl rfl⟩
        · omega
    · intro h
      obtain rfl | hdecode := h.plain hbinary
      · rfl
      · rw [hdecode]
        exact Utf8.valid_iff.mp h.valid

theorem roundTrip_image_eq_iff (attr : Str) (vals : List Bytes) :
    {v | ∃ w ∈ vals, roundTrip attr w = v} = {v | v ∈ vals} ↔ ∀ v ∈ vals, ReadsBack attr v := by
  simp only [← roundTrip_eq_iff]
  constructor
  · intro himage
    have honto : ∀ v ∈ vals, ∃ w ∈ vals, roundTrip attr w = v := by
      intro v hv
      have hmem : v ∈ {v | ∃ w ∈ vals, roundTrip attr w = v} := himage ▸ hv
      exact hmem
    exact @Lists.fixed_of_onto _ _ _ List.length honto fun v _ => roundTrip_cases attr v
  · intro hfixed
    ext v
    constructor
    · rintro ⟨w, hw, rfl⟩
      rw [hfixed w hw]
      exact hw
    · intro hv
      exact ⟨v, hv, hfixed v hv⟩

end Values

section Adding

variable {svc : Service} {draw : Nat → Nat → Nat} {store : Store} {req : AddRequest}

def AddRequest.Once (req : AddRequest) (a : Attribute) : Prop :=
  (req.attributes.filter fun b => b.type.eqIgnoreAsciiCase a.type) = [a]

theorem valuesOf_entryFromAttributes {p : Provider} {e : Entry} {a : Attribute}
    (honce : req.Once a) (hpassword : isUserPassword a.type = false)
    (h : entryFromAttributes p draw req.attributes = .ok e) : e.valuesOf a.type = a.values := by
  obtain ⟨pre, post, hattrs, -, -, hpost⟩ := List.filter_eq_cons_iff.mp honce
  rw [List.filter_eq_nil_iff] at hpost
  rw [entryFromAttributes, hattrs, List.zipIdx_append, List.zipIdx_cons,
    List.foldlM_append] at h
  obtain ⟨e₀, -, h⟩ := bind_eq_ok.mp h
  rw [List.foldlM_cons] at h
  obtain ⟨e₁, hset, h⟩ := bind_eq_ok.mp h
  simp only [hpassword, Bool.false_eq_true, if_false, pure_eq_ok] at hset
  refine foldlM_invariant (P := fun e => e.valuesOf a.type = a.values) ?_ ?_ h
  · intro e b e' hb he hstep
    have hmem : b.1 ∈ post := List.fst_mem_of_mem_zipIdx hb
    have hne : ¬ a.type.asciiLower = b.1.type.asciiLower := by
      intro heq
      exact hpost b.1 hmem (beq_iff_eq.mpr heq.symm)
    split at hstep
    · obtain ⟨hashes, -, hstep⟩ := bind_eq_ok.mp hstep
      cases hstep
      rw [Entry.valuesOf_set, if_neg hne, he]
    · cases hstep
      rw [Entry.valuesOf_set, if_neg hne, he]
  · rw [← hset, Entry.valuesOf_set, if_pos rfl]

theorem stampSecurityPrincipal_of_no_sid {topology : Option PartitionRegistry} {dn : Dn}
    {e : Entry} (h : Security.domainSid store topology dn = none) :
    Security.stampSecurityPrincipal store topology dn e = .ok (e, store) := by
  unfold Security.stampSecurityPrincipal
  split
  · rw [h]
  · rfl

theorem Referrals.proactiveReferral_congr_none {refs : Referrals} {d e : Dn} (h : d.Same e)
    (he : ¬ refs.Foreign e) : refs.proactiveReferral d = none := by
  rw [Referrals.proactiveReferral_eq_none]
  rintro ⟨topology, ownId, owner, url, ht, ho, hr, hne, hu⟩
  rw [Store.resolve_congr topology h] at hr
  exact he ⟨topology, ownId, owner, url, ht, ho, hr, hne, hu⟩

theorem getEntry_of_handleAdd {dn base : Dn}
    (hok : (svc.handleAdd draw store req).result.resultCode = .success)
    (hdn : Dn.parse req.entry = .ok dn)
    (hsid : Security.domainSid store svc.referrals.topology dn = none) (hsame : base.Same dn) :
    ¬ svc.referrals.Foreign dn ∧ ∃ e, entryFromAttributes svc.toProvider draw req.attributes =
      .ok e ∧ (svc.handleAdd draw store req).store.getEntry base = .ok (some e) := by
  have hcase := Service.handleAdd_cases svc draw store req
  generalize svc.handleAdd draw store req = u at hok hcase
  cases hcase with
  | refused hfails => exact absurd hok hfails
  | stored hcarried _ hput =>
    obtain ⟨e₀, _, hdn', hown, hattrs, -, hstamp, -⟩ := hcarried
    cases hdn.symm.trans hdn'
    rw [stampSecurityPrincipal_of_no_sid hsid] at hstamp
    cases hstamp
    exact ⟨hown, _, hattrs, Store.getEntry_putEntry hput hsame⟩

end Adding

section Searching

variable {svc : Service} {srv : Searcher} {draw : Nat → Nat → Nat} {store : Store}
  {req : AddRequest} {q : SearchRequest} {a : Attribute} {dn base : Dn}

structure Rereads (svc : Service) (srv : Searcher) (store : Store) (q : SearchRequest) (base : Dn)
    (a : Attribute) : Prop where
  referrals : srv.referrals = svc.referrals
  named : Dn.parse q.baseObject = .ok base
  scope : q.scope = .baseObject
  requested : q.explicitlyRequested a.type = true
  values : q.typesOnly = false
  filter : ∀ e, store.getEntry base = .ok (some e) →
    Filter.matchesEntry srv.unicode e q.filter = true

/-- The values come back as they were: under a name of some length if each of
them is kept, under the empty one if the root DSE shows them. -/
def ComesBack (srv : Searcher) (store : Store) (dn : Dn) (a : Attribute) : Prop :=
  if dn.isEmpty then
    shownValues [.entry (Rootdse.build (srv.referrals.topology.getD store.registry) srv.fipsActive)]
      a.type = {v | v ∈ a.vals}
  else ∀ v ∈ a.vals, ReadsBack a.type v

/-- A search after an Add shows exactly the values added if and only if each is
kept by both conversions. -/
theorem shown_as_added_iff (hok : (svc.handleAdd draw store req).result.resultCode = .success)
    (hdn : Dn.parse req.entry = .ok dn)
    (hsid : Security.domainSid store svc.referrals.topology dn = none) (honce : req.Once a)
    (hpassword : isUserPassword a.type = false) (hsame : base.Same dn)
    (hq : Rereads svc srv (svc.handleAdd draw store req).store q base a) :
    shownValues (srv.handleSearch (svc.handleAdd draw store req).store q) a.type =
        {v | v ∈ a.vals} ↔
      ComesBack srv (svc.handleAdd draw store req).store dn a := by
  obtain ⟨hown, e, hattrs, hget⟩ := getEntry_of_handleAdd hok hdn hsid hsame
  generalize (svc.handleAdd draw store req).store = store' at hq hget ⊢
  rw [Searcher.handleSearch, hq.named, ComesBack, Dn.isEmpty_congr hsame.symm]
  simp only [hq.scope, and_true]
  split
  · next hempty =>
    have hdone : ∀ e, shownValues (.entry e :: done .success "") a.type =
        shownValues [.entry e] a.type := by
      intro e
      simp [shownValues, done]
    rw [hdone]
  · next hempty =>
    have hreferral : srv.referrals.proactiveReferral base = none := by
      rw [hq.referrals]
      exact Referrals.proactiveReferral_congr_none hsame hown
    rw [hreferral]
    simp only [Searcher.candidates, hget]
    rw [answer_single, if_pos (hq.filter e hget),
      shownValues_projectAttributes _ hq.requested hq.values,
      valuesOf_entryFromAttributes honce hpassword hattrs, Attribute.values]
    simp only [List.mem_map, exists_exists_and_eq_and]
    exact roundTrip_image_eq_iff a.type a.vals

section Samples

open Tracked (corpPerson)

def addValue (attr : Str) (v : Bytes) : AddRequest :=
  ⟨"cn=Alice,dc=corp", [⟨"cn", [Str.toUtf8 "Alice"]⟩, ⟨attr, [v]⟩]⟩

def withValue (attr : Str) (v : Bytes) : Update :=
  Service.corpService.handleAdd (fun _ _ => 0) (Service.corpStore .empty) (addValue attr v)

theorem shown_as_added_mail :
    shownValues (corpSearcher.handleSearch (withValue "mail" (Str.toUtf8 "a@b")).store
      (readAlice ["mail"])) "mail" = {v | v ∈ [Str.toUtf8 "a@b"]} := by
  have hq : Rereads Service.corpService corpSearcher (withValue "mail" (Str.toUtf8 "a@b")).store
      (readAlice ["mail"]) (corpPerson "alice") ⟨"mail", [Str.toUtf8 "a@b"]⟩ := by
    refine ⟨rfl, rfl, rfl, rfl, rfl, fun e he => ?_⟩
    cases he
    rfl
  have honce : (addValue "mail" (Str.toUtf8 "a@b")).Once ⟨"mail", [Str.toUtf8 "a@b"]⟩ := by
    unfold AddRequest.Once
    decide +kernel
  have hdn : Dn.parse (addValue "mail" (Str.toUtf8 "a@b")).entry = .ok (corpPerson "Alice") := rfl
  refine (shown_as_added_iff rfl hdn rfl honce (by decide +kernel) (by decide +kernel) hq).mpr ?_
  rw [ComesBack, if_neg (by decide)]
  intro v hv
  obtain rfl := List.mem_singleton.mp hv
  exact ⟨⟨_, rfl⟩, by decide⟩

/-- A byte that is no text, and a SID in base 64, are shown as something else. -/
theorem not_shown_as_added :
    ((withValue "jpegPhoto" [0xFF]).result = .success ∧
      corpSearcher.handleSearch (withValue "jpegPhoto" [0xFF]).store (readAlice ["jpegPhoto"]) =
        .entry ⟨"cn=alice,dc=corp", [⟨"jpegphoto", [[0xEF, 0xBF, 0xBD]]⟩]⟩ :: done .success "") ∧
    (withValue "objectSid" (Str.toUtf8 "AAAA")).result = .success ∧
      corpSearcher.handleSearch (withValue "objectSid" (Str.toUtf8 "AAAA")).store
          (readAlice ["objectSid"]) =
        .entry ⟨"cn=alice,dc=corp", [⟨"objectsid", [[0, 0, 0]]⟩]⟩ :: done .success "" := by
  decide +kernel

end Samples

end Searching

end IronDirectory.Ldap
