import IronDirectory.Defs.Ldap.Search
import IronDirectory.Defs.Storage.EntryLaws

namespace IronDirectory.Ldap

open Base Naming Storage

variable {req : SearchRequest}

theorem SearchRequest.limit_ne_zero (req : SearchRequest) : req.limit ≠ 0 := by
  rw [SearchRequest.limit]
  split
  · decide
  · next h =>
    intro hzero
    exact h (UInt32.toNat_inj.mp hzero)

theorem answer_single (u : Unicode) (project : Entry → List PartialAttribute) (dn : Dn)
    (e : Entry) :
    req.answer u project 0 [(dn, e)] =
      if Filter.matchesEntry u e req.filter then
        .entry ⟨dn.display, project e⟩ :: done .success ""
      else done .success "" := by
  rw [SearchRequest.answer, SearchRequest.answer, SearchRequest.answer,
    if_neg req.limit_ne_zero.symm]

def shown (project : Entry → List PartialAttribute) (row : Dn × Entry) : SearchOp :=
  .entry ⟨row.1.display, project row.2⟩

def SearchRequest.matching (u : Unicode) (req : SearchRequest) (rows : List (Dn × Entry)) :
    List (Dn × Entry) :=
  rows.filter fun row => Filter.matchesEntry u row.2 req.filter

theorem answer_eq {u : Unicode} {project : Entry → List PartialAttribute}
    {rows : List (Dn × Entry)} {sent : Nat} (hsent : sent ≤ req.limit) :
    req.answer u project sent rows =
      ((req.matching u rows).take (req.limit - sent)).map (shown project) ++
        done (if req.limit - sent < (req.matching u rows).length then .sizeLimitExceeded
          else .success) "" := by
  induction rows generalizing sent with
  | nil => simp [SearchRequest.answer, SearchRequest.matching]
  | cons row rows ih =>
    obtain ⟨dn, e⟩ := row
    rw [SearchRequest.answer]
    split
    · next hmatch =>
      have hcons : req.matching u ((dn, e) :: rows) = (dn, e) :: req.matching u rows := by
        simp [SearchRequest.matching, hmatch]
      rw [hcons]
      split
      · next heq => simp [heq]
      · next hne =>
        have hleft : req.limit - sent = req.limit - (sent + 1) + 1 := by omega
        rw [ih (by omega), hleft, List.take_succ_cons, List.length_cons]
        simp [shown]
    · next hmatch =>
      have hcons : req.matching u ((dn, e) :: rows) = req.matching u rows := by
        simp [SearchRequest.matching, hmatch]
      rw [hcons]
      exact ih hsent

theorem mem_answer {u : Unicode} {project : Entry → List PartialAttribute}
    {rows : List (Dn × Entry)} (hlimit : rows.length ≤ req.limit) {x : SearchResultEntry} :
    .entry x ∈ req.answer u project 0 rows ↔ ∃ row ∈ rows,
      Filter.matchesEntry u row.2 req.filter = true ∧ x = ⟨row.1.display, project row.2⟩ := by
  have hle : (req.matching u rows).length ≤ req.limit := (List.length_filter_le _ _).trans hlimit
  rw [answer_eq (Nat.zero_le _), Nat.sub_zero, List.take_of_length_le hle, List.mem_append,
    List.mem_map]
  constructor
  · rintro (⟨row, hrow, hx⟩ | hdone)
    · obtain ⟨hmem, hmatch⟩ := List.mem_filter.mp hrow
      cases hx
      exact ⟨row, hmem, hmatch, rfl⟩
    · simp [done] at hdone
  · rintro ⟨row, hmem, hmatch, rfl⟩
    exact .inl ⟨row, List.mem_filter.mpr ⟨hmem, hmatch⟩, rfl⟩

def shownValues (ops : List SearchOp) (attr : Str) : Set Bytes :=
  {v | ∃ e, .entry e ∈ ops ∧ ∃ a ∈ e.attributes, a.type.eqIgnoreAsciiCase attr = true ∧ v ∈ a.vals}

theorem explicitlyRequested_congr {a b : Str} (h : a.asciiLower = b.asciiLower) :
    req.explicitlyRequested a = req.explicitlyRequested b := by
  simp only [SearchRequest.explicitlyRequested, Str.eqIgnoreAsciiCase, h]

theorem isBinaryAttr_congr {a b : Str} (h : a.asciiLower = b.asciiLower) :
    isBinaryAttr a = isBinaryAttr b := by
  simp only [isBinaryAttr, Str.eqIgnoreAsciiCase, h]

theorem returned_of_explicitlyRequested {name : Str} (h : req.explicitlyRequested name = true) :
    req.returned name = true := by
  unfold SearchRequest.returned
  split
  · exact h
  · simp [h]

theorem shownValues_projectAttributes {e : Entry} {attr : Str} (dn : Str)
    (hrequested : req.explicitlyRequested attr = true) (htypes : req.typesOnly = false) :
    shownValues (.entry ⟨dn, req.projectAttributes e⟩ :: done .success "") attr =
      {v | ∃ value ∈ e.valuesOf attr, SearchRequest.wire attr value = v} := by
  ext v
  simp only [shownValues, done, List.mem_cons, List.not_mem_nil, or_false, reduceCtorEq,
    SearchOp.entry.injEq, exists_eq_left, Set.mem_ofPred_eq, SearchRequest.projectAttributes,
    SearchRequest.projectWith, List.mem_map, List.mem_filter, htypes]
  constructor
  · rintro ⟨_, ⟨name, ⟨-, -⟩, rfl⟩, hname, hv⟩
    have hfold : name.asciiLower = attr.asciiLower := beq_iff_eq.mp hname
    obtain ⟨value, hvalue, rfl⟩ := List.mem_map.mp hv
    refine ⟨value, Entry.valuesOf_congr hfold e ▸ hvalue, ?_⟩
    simp only [SearchRequest.wire, isBinaryAttr_congr hfold]
  · rintro ⟨value, hvalue, rfl⟩
    have hfold : attr.asciiLower.asciiLower = attr.asciiLower := Str.asciiLower_asciiLower attr
    refine ⟨_, ⟨attr.asciiLower, ⟨?_, ?_⟩, rfl⟩, beq_iff_eq.mpr hfold, ?_⟩
    · cases hfind : e.attrs.find? attr.asciiLower with
      | none =>
        rw [Entry.valuesOf, Entry.get, hfind] at hvalue
        cases hvalue
      | some values => exact List.mem_map_of_mem (OrderedMap.mem_entries_iff.mpr hfind)
    · rw [← explicitlyRequested_congr hfold] at hrequested
      exact returned_of_explicitlyRequested hrequested
    · simp only [if_false]
      rw [Entry.valuesOf_congr hfold]
      refine List.mem_map.mpr ⟨value, hvalue, ?_⟩
      simp only [SearchRequest.wire, isBinaryAttr_congr hfold]

section Samples

def corpSearcher : Searcher := ⟨.ascii, id, ⟨none, [], none⟩, false⟩

def readAlice (attributes : List Str) : SearchRequest :=
  ⟨"cn=alice,dc=corp", .baseObject, 0, false, .present "cn", attributes⟩

end Samples

end IronDirectory.Ldap
