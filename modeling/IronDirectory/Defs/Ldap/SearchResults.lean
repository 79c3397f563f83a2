import IronDirectory.Defs.Ldap.SearchLaws
import IronDirectory.Defs.Naming.Routing
import IronDirectory.Defs.Storage.Scan

namespace IronDirectory.Ldap

open Base Naming Storage

def Scope.names (scope : Scope) (base : Dn) : Set Dn :=
  match scope with
  | .baseObject => {d | d.Same base}
  | .singleLevel => {d | d.isWithin base = true ∧ d.depth = base.depth + 1}
  | .wholeSubtree => {d | d.isWithin base = true}
  | .unrecognized => ∅

def firstOf {α : Type} (n : Nat) (xs : List α) : List α := if n = 0 then xs else xs.take n

variable {srv : Searcher} {s : Store} {p : Partition} {base : Dn} {req : SearchRequest}

section Levels

variable {c : Cluster} {pid : PartitionId} {rows : List (Dn × Entry)} {Q : Dn → Prop}
  (h : ∀ dn e, (dn, e) ∈ rows ↔ ∃ d, Tree.StoredAs c pid d e ∧ dn = d.folded ∧
    d.isWithin base = true ∧ Q d)

include h

theorem mem_singleLevel (dn : Dn) (e : Entry) :
    (dn, e) ∈ rows.filter (fun row => row.1.depth = base.depth + 1) ↔
      ∃ d ∈ Scope.singleLevel.names base, Tree.StoredAs c pid d e ∧ dn = d.folded ∧ Q d := by
  rw [List.mem_filter, h, decide_eq_true_eq]
  constructor
  · rintro ⟨⟨d, hstored, rfl, hwithin, hd⟩, hdepth⟩
    exact ⟨d, ⟨hwithin, d.folded_same.length_rdns.symm.trans hdepth⟩, hstored, rfl, hd⟩
  · rintro ⟨d, ⟨hwithin, hdepth⟩, hstored, rfl, hd⟩
    exact ⟨⟨d, hstored, rfl, hwithin, hd⟩, d.folded_same.length_rdns.trans hdepth⟩

theorem mem_wholeSubtree (dn : Dn) (e : Entry) : (dn, e) ∈ rows ↔
    ∃ d ∈ Scope.wholeSubtree.names base, Tree.StoredAs c pid d e ∧ dn = d.folded ∧ Q d := by
  rw [h]
  constructor
  · rintro ⟨d, hstored, rfl, hwithin, hd⟩
    exact ⟨d, hwithin, hstored, rfl, hd⟩
  · rintro ⟨d, hwithin, hstored, rfl, hd⟩
    exact ⟨d, hstored, rfl, hwithin, hd⟩

end Levels

section Scans

variable (hres : s.registry.resolve base = some p)
  (hread : Tree.Answers (s.clusters p.cluster) p.id base)
  (hold : Tree.HoldsOnly (s.clusters p.cluster) p.id {d | d.Wf ∧ Tree.Decodes p.id d})
  (hwf : base.Wf) (hdecodes : Tree.Decodes p.id base)

include hres hread hold hwf hdecodes

theorem exists_scanned : ∃ rows, s.scanSubtree base = .ok rows ∧
    rows.Pairwise (fun a b => Key.entryKey p.id a.1 < Key.entryKey p.id b.1) ∧
    rows.length ≤ (s.clusters p.cluster).kv.entries.length ∧
    ∀ dn e, (dn, e) ∈ rows ↔ ∃ d, Tree.StoredAs (s.clusters p.cluster) p.id d e ∧ dn = d.folded ∧
      d.isWithin base = true ∧ (base.isEmpty = true → d.isEmpty = true) := by
  obtain ⟨rows, hrows, hordered, hlength, hmem⟩ := Tree.scanSubtree_rows hres hread hold
  refine ⟨rows, hrows, hordered, hlength, fun dn e => ?_⟩
  rw [hmem]
  refine exists_congr fun d => and_congr_right fun hstored => and_congr_right fun _ => ?_
  exact Tree.inRange_iff_of_storedAs hstored hwf hdecodes

theorem exists_candidates (srv : Searcher) {scope : Scope}
    (hscope : scope = .singleLevel ∨ scope = .wholeSubtree) :
    ∃ rows, srv.candidates s scope base = .ok rows ∧
      rows.Pairwise (fun a b => Key.entryKey p.id a.1 < Key.entryKey p.id b.1) ∧
      rows.length ≤ (s.clusters p.cluster).kv.entries.length ∧
      ∀ dn e, (dn, e) ∈ rows ↔ ∃ d ∈ scope.names base,
        Tree.StoredAs (s.clusters p.cluster) p.id d e ∧ dn = d.folded ∧
          (base.isEmpty = true → d.isEmpty = true) := by
  obtain ⟨rows, hrows, hordered, hlength, hmem⟩ := exists_scanned hres hread hold hwf hdecodes
  obtain rfl | rfl := hscope
  · refine ⟨rows.filter fun row => row.1.depth = base.depth + 1, ?_, hordered.filter _,
      (List.length_filter_le _ _).trans hlength, mem_singleLevel hmem⟩
    simp only [Searcher.candidates, hrows]
  · refine ⟨rows, ?_, hordered, hlength, mem_wholeSubtree hmem⟩
    simp only [Searcher.candidates, hrows]
    rfl

theorem candidates_lists (srv : Searcher) (hne : base.isEmpty = false) (scope : Scope) :
    ∃ rows, Tree.Lists (s.clusters p.cluster) p.id (scope.names base) rows ∧
      rows.length ≤ (s.clusters p.cluster).kv.entries.length ∧
      (srv.candidates s scope base = .ok rows ∨
        rows = [] ∧ ∃ result, srv.candidates s scope base = .error result ∧
          result.resultCode ≠ .sizeLimitExceeded) := by
  have hscan : scope = .singleLevel ∨ scope = .wholeSubtree → ∃ rows,
      Tree.Lists (s.clusters p.cluster) p.id (scope.names base) rows ∧
        rows.length ≤ (s.clusters p.cluster).kv.entries.length ∧
          srv.candidates s scope base = .ok rows := by
    intro hscope
    obtain ⟨rows, hrows, hordered, hlength, hmem⟩ :=
      exists_candidates hres hread hold hwf hdecodes srv hscope
    refine ⟨rows, ⟨hordered, ?_, ?_⟩, hlength, hrows⟩
    · rintro ⟨dn, e⟩ hrow
      obtain ⟨d, hd, hstored, rfl, -⟩ := (hmem dn e).mp hrow
      exact ⟨d, hd, hstored, d.folded_same⟩
    · intro d hd e hstored
      refine ⟨(d.folded, e), (hmem _ _).mpr ⟨d, hd, hstored, rfl, ?_⟩, d.folded_same, rfl⟩
      simp [hne]
  have hget : s.getEntry base = Index.readEntry (s.clusters p.cluster) p.id base := by
    rw [Store.getEntry, Store.resolve, hres]
    simp only [Outcome.ok_bind, Store.client_of_resolve hres]
  have hempty : ∀ row ∈ ([] : List (Dn × Entry)), ∃ d, scope.names base d ∧
      Tree.StoredAs (s.clusters p.cluster) p.id d row.2 ∧ row.1.Same d := by
    intro row hrow
    cases hrow
  cases scope with
  | singleLevel =>
    obtain ⟨rows, hlists, hlength, hrows⟩ := hscan (.inl rfl)
    exact ⟨rows, hlists, hlength, .inl hrows⟩
  | wholeSubtree =>
    obtain ⟨rows, hlists, hlength, hrows⟩ := hscan (.inr rfl)
    exact ⟨rows, hlists, hlength, .inl hrows⟩
  | unrecognized =>
    exact ⟨[], ⟨.nil, hempty, fun d hd => hd.elim⟩, Nat.zero_le _,
      .inr ⟨rfl, _, rfl, by decide⟩⟩
  | baseObject =>
    cases hfind : (s.clusters p.cluster).kv.find? (Key.entryKey p.id base) with
    | none =>
      refine ⟨[], ⟨.nil, hempty, ?_⟩, Nat.zero_le _,
        .inr ⟨rfl, .new .noSuchObject "", ?_, by decide⟩⟩
      · intro d hd e hstored
        have hnone := hstored.find
        rw [Key.entryKey_congr hd, hfind] at hnone
        cases hnone
      · simp only [Searcher.candidates, hget, Index.readEntry, Cluster.get, hread.base, hfind,
          Outcome.ok_bind]
        rfl
    | some v =>
      obtain ⟨d, -, -, e, rfl⟩ := hold _ v hfind (List.prefix_append _ _)
      have hstored : Tree.StoredAs (s.clusters p.cluster) p.id base e := ⟨hwf, hdecodes, hfind⟩
      refine ⟨[(base, e)], ⟨List.pairwise_singleton _ _, ?_, ?_⟩, ?_, .inl ?_⟩
      · intro row hrow
        obtain rfl := List.mem_singleton.mp hrow
        exact ⟨base, rfl, hstored, rfl⟩
      · intro d hd e' hstored'
        exact ⟨_, List.mem_singleton_self _, Dn.Same.symm hd, hstored.entry_eq hstored' (Dn.Same.symm hd)⟩
      · exact List.length_pos_of_mem (OrderedMap.mem_entries_iff.mpr hfind)
      · simp [Searcher.candidates, hget, Index.readEntry, Cluster.get, hread.base, hfind,
          Value.decode]

end Scans

theorem take_limit {α : Type} {xs : List α} (h : xs.length < 2 ^ 64) :
    xs.take req.limit = firstOf req.sizeLimit.toNat xs := by
  rw [SearchRequest.limit, firstOf]
  by_cases hzero : req.sizeLimit = 0
  · rw [if_pos hzero, hzero, List.take_of_length_le (by omega)]
    rfl
  · have hne : req.sizeLimit.toNat ≠ 0 := fun heq => hzero (UInt32.toNat_inj.mp heq)
    rw [if_neg hzero, if_neg hne]

theorem limit_lt_iff {α : Type} {xs : List α} (h : xs.length < 2 ^ 64) :
    req.limit < xs.length ↔ 0 < req.sizeLimit.toNat ∧ req.sizeLimit.toNat < xs.length := by
  rw [SearchRequest.limit]
  by_cases hzero : req.sizeLimit = 0
  · rw [if_pos hzero, hzero]
    refine iff_of_false (by omega) ?_
    simp
  · have hne : req.sizeLimit.toNat ≠ 0 := fun heq => hzero (UInt32.toNat_inj.mp heq)
    rw [if_neg hzero]
    omega

theorem proactiveReferral_of_no_topology {refs : Referrals} (h : refs.topology = none) (dn : Dn) :
    refs.proactiveReferral dn = none := by
  rw [Referrals.proactiveReferral, h]
  rfl

theorem handleSearch_of_candidates {rows : List (Dn × Entry)}
    (hbase : Dn.parse req.baseObject = .ok base)
    (hroot : ¬ (base.isEmpty = true ∧ req.scope = .baseObject))
    (hreferral : srv.referrals.topology = none)
    (hrows : srv.candidates s req.scope base = .ok rows) :
    srv.handleSearch s req = req.answer srv.unicode req.projectAttributes 0 rows := by
  simp [Searcher.handleSearch, hbase, hroot, proactiveReferral_of_no_topology hreferral, hrows]

/-- A search returns, in the order of their keys, the first of the entries in
its scope that match, and says at the end whether there were more. -/
theorem handleSearch_eq_first (srv : Searcher) (hbase : Dn.parse req.baseObject = .ok base)
    (hne : base.isEmpty = false) (hreferral : srv.referrals.topology = none)
    (hres : s.registry.resolve base = some p) (hdecodes : Tree.Decodes p.id base)
    (hread : Tree.Answers (s.clusters p.cluster) p.id base)
    (hold : Tree.HoldsOnly (s.clusters p.cluster) p.id {d | d.Wf ∧ Tree.Decodes p.id d})
    -- the rows of a scan are a vector, whose length is a machine word
    (hfits : (s.clusters p.cluster).kv.entries.length < 2 ^ 64) :
    ∃ rows result, Tree.Lists (s.clusters p.cluster) p.id (req.scope.names base) rows ∧
      srv.handleSearch s req =
        (firstOf req.sizeLimit.toNat (req.matching srv.unicode rows)).map
          (shown req.projectAttributes) ++ [.done result] ∧
      (result.resultCode = .sizeLimitExceeded ↔ 0 < req.sizeLimit.toNat ∧
        req.sizeLimit.toNat < (req.matching srv.unicode rows).length) := by
  obtain ⟨rows, hlists, hlength, hcandidates⟩ :=
    candidates_lists hres hread hold (Dn.parse_wf hbase) hdecodes srv hne req.scope
  have hroot : ¬ (base.isEmpty = true ∧ req.scope = .baseObject) := by simp [hne]
  refine ⟨rows, ?_⟩
  obtain hok | ⟨rfl, result, herror, hcode⟩ := hcandidates
  · have hmatching : (req.matching srv.unicode rows).length < 2 ^ 64 :=
      ((List.length_filter_le _ _).trans hlength).trans_lt hfits
    refine ⟨.new (if req.limit < (req.matching srv.unicode rows).length then .sizeLimitExceeded
      else .success) "", hlists, ?_, ?_⟩
    · rw [handleSearch_of_candidates hbase hroot hreferral hok, answer_eq (Nat.zero_le _),
        Nat.sub_zero, take_limit hmatching]
      rfl
    · rw [← limit_lt_iff hmatching]
      split
      · next h => exact iff_of_true rfl h
      · next h => exact iff_of_false nofun h
  · refine ⟨result, hlists, ?_, ?_⟩
    · simp [Searcher.handleSearch, hbase, hne, proactiveReferral_of_no_topology hreferral, herror,
        SearchRequest.matching, firstOf]
    · simp [SearchRequest.matching, hcode]

section Samples

open Tracked (corp corpPerson withMail)

def twoPeople : Store :=
  ⟨.singleton corp, fun _ => { Cluster.empty with
    kv := (OrderedMap.empty.insert (Key.entryKey corp.id (corpPerson "Bob"))
      (.entry (withMail "bob@corp"))).insert (Key.entryKey corp.id (corpPerson "Alice"))
        (.entry (withMail "alice@corp")) }⟩

def oneOfThem : SearchRequest :=
  ⟨"dc=corp", .wholeSubtree, 1, true, .present "mail", ["mail"]⟩

theorem decodes_corpPerson {name : Str} {t : Str} (h : Dn.parse t = .ok (corpPerson name))
    (hl : (corpPerson name).Legible) :
    corpPerson name ∈ {d : Dn | d.Wf ∧ Tree.Decodes corp.id d} :=
  ⟨Dn.parse_wf h, (Tree.decodes_iff_legible (Dn.parse_wf h)).mpr hl⟩

theorem holdsOnly_twoPeople :
    Tree.HoldsOnly (twoPeople.clusters corp.cluster) corp.id
      {d | d.Wf ∧ Tree.Decodes corp.id d} := by
  have hempty : Tree.HoldsOnly .empty corp.id {d | d.Wf ∧ Tree.Decodes corp.id d} :=
    fun _ _ h => nomatch h
  have halice : Dn.parse "cn=Alice,dc=corp" = .ok (corpPerson "Alice") := rfl
  have hbob : Dn.parse "cn=Bob,dc=corp" = .ok (corpPerson "Bob") := rfl
  exact (hempty.insert (decodes_corpPerson hbob (by decide +kernel)) _).insert
    (decodes_corpPerson halice (by decide +kernel)) _

theorem handleSearch_oneOfThem :
    corpSearcher.handleSearch twoPeople oneOfThem =
      [.entry ⟨"cn=alice,dc=corp", [⟨"mail", []⟩]⟩, .done (.new .sizeLimitExceeded "")] ∧
    ∃ rows result,
      Tree.Lists (twoPeople.clusters corp.cluster) corp.id (Scope.wholeSubtree.names corp.baseDn)
        rows ∧
      corpSearcher.handleSearch twoPeople oneOfThem =
        (firstOf 1 (oneOfThem.matching .ascii rows)).map (shown oneOfThem.projectAttributes) ++
          [.done result] ∧
      (result.resultCode = .sizeLimitExceeded ↔ 0 < 1 ∧
        1 < (oneOfThem.matching .ascii rows).length) := by
  have hparse : Dn.parse oneOfThem.baseObject = .ok corp.baseDn := rfl
  have hlegible : corp.baseDn.Legible := by decide +kernel
  exact ⟨by decide +kernel, handleSearch_eq_first corpSearcher hparse rfl rfl rfl
    ((Tree.decodes_iff_legible (Dn.parse_wf hparse)).mpr hlegible) ⟨rfl, rfl⟩ holdsOnly_twoPeople
    (by decide +kernel)⟩

end Samples

end IronDirectory.Ldap
