import IronDirectory.Defs.Base.Utf8Laws
import IronDirectory.Defs.Gc.Session
import IronDirectory.Defs.Ldap.SearchResults
import IronDirectory.Defs.Naming.DisplayText
import Mathlib.Data.Multiset.MapFold

namespace IronDirectory.Gc

open Base Naming Storage Ldap

section Loading

variable {p : Partition} {whitelist : List Str} {c : Cluster} {a a' : Aggregate}

def loadRows (p : Partition) (whitelist : List Str) (rows : List (Str × Value)) (a : Aggregate) :
    Aggregate :=
  rows.foldl (fun a row => applyRow p whitelist row a) a

theorem loadRows_cons (row : Str × Value) (rows : List (Str × Value)) (a : Aggregate) :
    loadRows p whitelist (row :: rows) a =
      loadRows p whitelist rows (applyRow p whitelist row a) := rfl

def initialLoad (p : Partition) (whitelist : List Str) (c : Cluster) (a : Aggregate) :
    Except StoreError Aggregate := do
  let rows ← Tree.scanSubtree c p.id p.baseDn
  return (loadRows p whitelist rows a).markReady p.id

theorem run_loadRows (p : Partition) (whitelist : List Str) (kv : OrderedMap Str Value)
    (rows : List (Str × Value)) (a : Aggregate) :
    ∃ steps, Run (Step p whitelist) ⟨kv, a, .loading rows, []⟩ steps
      ⟨kv, loadRows p whitelist rows a, .loading [], []⟩ := by
  induction rows generalizing a with
  | nil => exact ⟨_, .nil _⟩
  | cons row rows ih =>
    obtain ⟨steps, hrun⟩ := ih (applyRow p whitelist row a)
    exact ⟨_, .cons (.load rfl) hrun⟩

theorem run_initialLoad (h : initialLoad p whitelist c a = .ok a') :
    ∃ steps, Run (Step p whitelist) ⟨c.kv, a, .idle, []⟩ steps ⟨c.kv, a', .watching, []⟩ := by
  obtain ⟨rows, hrows, h⟩ := Outcome.bind_eq_ok.mp h
  cases h
  have hread := Tree.answers_of_scanSubtree hrows
  have hscan : rows = ((c.kv.find? (Key.entryKey p.id p.baseDn)).map fun v =>
      (Key.entryKey p.id p.baseDn, v)).toList ++ c.kv.scan (watched p) := by
    rw [Tree.scanSubtree, Cluster.getPrefix, hread.range, Cluster.get, hread.base, Outcome.ok_bind,
      Outcome.ok_bind] at hrows
    cases hbase : c.kv.find? (Key.entryKey p.id p.baseDn) with
    | none =>
      rw [hbase] at hrows
      cases hrows
      rfl
    | some v =>
      rw [hbase] at hrows
      cases hrows
      rfl
  obtain ⟨steps, hload⟩ := run_loadRows p whitelist c.kv rows a
  have hready := hload.append (.cons (.ready rfl) (.nil _))
  rw [hscan] at hready ⊢
  exact ⟨_, .cons (.subscribe rfl) (.cons (.range rfl) (.cons (.base rfl) hready))⟩

theorem length_loadRows_le (rows : List (Str × Value)) (a : Aggregate) :
    (loadRows p whitelist rows a).entries.entries.length ≤ a.entries.entries.length + rows.length := by
  induction rows generalizing a with
  | nil => exact le_rfl
  | cons row rows ih =>
    have hrow : (applyRow p whitelist row a).entries.entries.length ≤ a.entries.entries.length + 1 := by
      obtain ⟨k, v⟩ := row
      rw [applyRow_eq]
      split
      · exact a.entries.length_insert_le _ _
      · exact Nat.le_succ _
    have hrest := ih (applyRow p whitelist row a)
    rw [loadRows_cons, List.length_cons]
    omega

theorem find?_loadRows {rows : List (Str × Value)} {text : Str} {dn : Dn} {e : Entry}
    (h : (loadRows p whitelist rows a).entries.find? text = some (dn, e)) :
    a.entries.find? text = some (dn, e) ∨ ∃ k e₀, (k, .entry e₀) ∈ rows ∧
      Tree.dnFromTreeKey p.id k = .ok dn ∧ e = project e₀ whitelist ∧ text = dn.display := by
  induction rows generalizing a with
  | nil => exact .inl h
  | cons row rows ih =>
    obtain ⟨k, v⟩ := row
    rw [loadRows_cons] at h
    obtain h | ⟨k', e₀, hmem, hrest⟩ := ih h
    · rw [applyRow_eq] at h
      split at h
      · next e' dn' hkept hdn =>
        rw [Aggregate.upsert, OrderedMap.find?_insert] at h
        split at h
        · next htext =>
          cases h
          cases v with
          | text s => cases hkept
          | entry e₀ =>
            cases hkept
            exact .inr ⟨k, e₀, List.mem_cons_self, hdn, rfl, htext⟩
        · exact .inl h
      · exact .inl h
    · exact .inr ⟨k', e₀, List.mem_cons_of_mem _ hmem, hrest⟩

theorem isSome_loadRows_of_isSome {rows : List (Str × Value)} {text : Str}
    (h : (a.entries.find? text).isSome = true) :
    ((loadRows p whitelist rows a).entries.find? text).isSome = true := by
  induction rows generalizing a with
  | nil => exact h
  | cons row rows ih =>
    obtain ⟨k, v⟩ := row
    rw [loadRows_cons]
    refine ih ?_
    rw [applyRow_eq]
    split
    · rw [Aggregate.upsert, OrderedMap.find?_insert]
      split
      · rfl
      · exact h
    · exact h

theorem isSome_loadRows {rows : List (Str × Value)} {k : Str} {e : Entry} {dn : Dn}
    (hrow : (k, .entry e) ∈ rows) (hdn : Tree.dnFromTreeKey p.id k = .ok dn) :
    ((loadRows p whitelist rows a).entries.find? dn.display).isSome = true := by
  obtain ⟨before, later, rfl⟩ := List.append_of_mem hrow
  rw [loadRows, List.foldl_append, List.foldl_cons]
  refine isSome_loadRows_of_isSome ?_
  rw [applyRow_eq, hdn]
  simp [kept, Aggregate.upsert, OrderedMap.find?_insert]

end Loading

section Projection

variable {whitelist : List Str} {e : Entry}

theorem find?_foldl_projectStep (hfolded : e.Folded) (hwhite : Whitelisted whitelist e)
    {names : List Str} (hnames : ∀ name ∈ names, name ∈ e.attrNames) (acc : Entry) (k : Str) :
    (names.foldl (projectStep e whitelist) acc).attrs.find? k =
      if k ∈ names then e.attrs.find? k else acc.attrs.find? k := by
  induction names generalizing acc with
  | nil => simp
  | cons name names ih =>
    obtain ⟨hname, hrest⟩ := List.forall_mem_cons.mp hnames
    obtain ⟨values, hvalues⟩ := Option.isSome_iff_exists.mp (Entry.mem_attrNames.mp hname)
    have hstep : projectStep e whitelist acc name = ⟨acc.attrs.insert name values⟩ := by
      simp only [projectStep, hwhite name hname, if_true, Entry.get, Entry.set,
        hfolded name hname, hvalues]
    rw [List.foldl_cons, ih hrest, hstep, OrderedMap.find?_insert]
    by_cases hk : k = name
    · subst hk
      simp [hvalues]
    · simp [hk]

theorem project_of_whitelisted (hfolded : e.Folded) (hwhite : Whitelisted whitelist e) :
    project e whitelist = e := by
  have hattrs : (project e whitelist).attrs = e.attrs := by
    refine OrderedMap.ext_find? fun k => ?_
    rw [project, find?_foldl_projectStep hfolded hwhite fun _ h => h]
    split
    · rfl
    · next hk =>
      rw [Entry.mem_attrNames, Option.not_isSome_iff_eq_none] at hk
      rw [hk]
      rfl
  exact congrArg Entry.mk hattrs

end Projection

section Rows

variable {req : SearchRequest} {u : Unicode}

def shownRows (ops : List SearchOp) : Set (Str × Str × Multiset Bytes) :=
  {r | ∃ x, .entry x ∈ ops ∧ ∃ a ∈ x.attributes, r = (x.objectName, a.type, (a.vals : Multiset Bytes))}

def shownVals (req : SearchRequest) (wire : Str → Str → Bytes) (e : Entry) (name : Str) :
    List Bytes :=
  if req.typesOnly then [] else (e.valuesOf name).map (wire name)

theorem mem_shownRows_answer {returned : Str → Bool} {wire : Str → Str → Bytes}
    {rows : List (Dn × Entry)} (hlimit : rows.length ≤ req.limit)
    {r : Str × Str × Multiset Bytes} :
    r ∈ shownRows (req.answer u (req.projectWith returned wire) 0 rows) ↔
      ∃ dn e, (dn, e) ∈ rows ∧ Filter.matchesEntry u e req.filter = true ∧
        ∃ name ∈ e.attrNames, returned name = true ∧
          r = (dn.display, name, (shownVals req wire e name : Multiset Bytes)) := by
  have hanswer : ∀ x, .entry x ∈ req.answer u (req.projectWith returned wire) 0 rows ↔
      ∃ row ∈ rows, Filter.matchesEntry u row.2 req.filter = true ∧
        x = ⟨row.1.display, req.projectWith returned wire row.2⟩ := fun x =>
    mem_answer hlimit
  simp only [shownRows, Set.mem_ofPred_eq, hanswer]
  constructor
  · rintro ⟨_, ⟨⟨dn, e⟩, hrow, hmatch, rfl⟩, a, ha, rfl⟩
    obtain ⟨name, hname, rfl⟩ := List.mem_map.mp ha
    obtain ⟨hname, hreturned⟩ := List.mem_filter.mp hname
    exact ⟨dn, e, hrow, hmatch, name, hname, hreturned, rfl⟩
  · rintro ⟨dn, e, hrow, hmatch, name, hname, hreturned, rfl⟩
    refine ⟨_, ⟨(dn, e), hrow, hmatch, rfl⟩, _, List.mem_map_of_mem ?_, rfl⟩
    exact List.mem_filter.mpr ⟨hname, hreturned⟩

def Textual (name v : Str) : Prop := isBinaryAttr name = true → v = [] ∨ Base64.decode v = none

theorem wire_cases (name v : Str) : (Textual name v ∧ SearchRequest.wire name v = v.toUtf8) ∨
    (¬ Textual name v ∧ (SearchRequest.wire name v).length < v.toUtf8.length) := by
  have hutf := Utf8.length_fromUtf8Lossy_le v.toUtf8
  rw [Utf8.fromUtf8Lossy_toUtf8] at hutf
  cases hbinary : isBinaryAttr name with
  | false => simp [Textual, SearchRequest.wire, hbinary]
  | true =>
    simp only [Textual, SearchRequest.wire, hbinary, if_true, decodeBinaryAttr, forall_const]
    cases hdecode : Base64.decode v with
    | none => simp
    | some bs =>
      obtain rfl | hlt := Base64.length_lt_of_decode hdecode
      · cases hdecode
        exact .inl ⟨.inl rfl, rfl⟩
      · have hne : v ≠ [] := by
          rintro rfl
          cases hlt
        refine .inr ⟨by simp [hne], ?_⟩
        rw [Option.getD_some]
        omega

theorem shownVals_eq_iff {e : Entry} {name : Str} :
    (shownVals req (fun _ v => v.toUtf8) e name : Multiset Bytes) =
      shownVals req SearchRequest.wire e name ↔
      (req.typesOnly = false → ∀ v ∈ e.valuesOf name, Textual name v) := by
  cases htypes : req.typesOnly with
  | true => simp [shownVals, htypes]
  | false =>
    simp only [shownVals, htypes, Bool.false_eq_true, if_false, forall_const, Multiset.coe_eq_coe]
    constructor
    · intro hperm v hv
      have hcases : ∀ v ∈ e.valuesOf name, SearchRequest.wire name v = v.toUtf8 ∨
          (SearchRequest.wire name v).length < v.toUtf8.length := fun v _ =>
        (wire_cases name v).imp And.right And.right
      have heq := Lists.eq_of_perm_of_smaller hperm.symm hcases v hv
      obtain ⟨htext, -⟩ | ⟨-, hlt⟩ := wire_cases name v
      · exact htext
      · rw [heq] at hlt
        exact absurd hlt (lt_irrefl _)
    · intro htext
      refine .of_eq (List.map_congr_left fun v hv => ?_)
      obtain ⟨-, heq⟩ | ⟨hnot, -⟩ := wire_cases name v
      · exact heq.symm
      · exact absurd (htext v hv) hnot

end Rows

section Handlers

/-- Every entry of the naming context is stored under a name that its key is
read back as; its attributes are whitelisted, and no password is among them. -/
structure Stocked (c : Cluster) (pid : PartitionId) (whitelist : List Str) : Prop where
  names : Tree.HoldsOnly c pid {d | d.Wf ∧ Tree.Decodes pid d}
  folded : ∀ d e, Tree.StoredAs c pid d e → e.Folded
  covered : ∀ d e, Tree.StoredAs c pid d e → Whitelisted whitelist e
  noPassword : ∀ d e, Tree.StoredAs c pid d e → e.get userPasswordAttr = none

structure Aggregate.Enumerates (order : List MapOp → List Str) (a : Aggregate) : Prop where
  nodup : (order a.history).Nodup
  mem : ∀ text, text ∈ order a.history ↔ (a.entries.find? text).isSome = true

structure Asked (u : Unicode) (req : SearchRequest) (base d : Dn) (e : Entry) (name : Str) :
    Prop where
  scope : d ∈ req.scope.names base
  reached : base.isEmpty = true → d.isEmpty = true
  hit : Filter.matchesEntry u e req.filter = true
  present : name ∈ e.attrNames
  requested : (req.wantAll || req.explicitlyRequested name) = true

/-- The replica holds the entry, and has its values in the form in which they are
sent. -/
structure Shared (p : Partition) (req : SearchRequest) (d : Dn) (e : Entry) (name : Str) :
    Prop where
  replicated : p.baseDn.isEmpty = true → d.isEmpty = true
  textual : req.typesOnly = false → ∀ v ∈ e.valuesOf name, Textual name v

variable {c : Cluster} {p : Partition} {whitelist : List Str} {base d d' : Dn} {e e' : Entry}

theorem Stocked.project (h : Stocked c p.id whitelist) (hstored : Tree.StoredAs c p.id d e) :
    project e whitelist = e :=
  project_of_whitelisted (h.folded d e hstored) (h.covered d e hstored)

theorem Stocked.not_isUserPassword (h : Stocked c p.id whitelist) (hstored : Tree.StoredAs c p.id d e)
    {name : Str} (hname : name ∈ e.attrNames) : isUserPassword name = false := by
  rw [isUserPassword, Str.eqIgnoreAsciiCase, beq_eq_false_iff_ne]
  intro heq
  have hget := h.noPassword d e hstored
  rw [Entry.get, ← heq, h.folded d e hstored name hname] at hget
  have hsome := Entry.mem_attrNames.mp hname
  rw [hget] at hsome
  cases hsome

theorem same_of_display (h : Tree.StoredAs c p.id d e) (h' : Tree.StoredAs c p.id d' e')
    (htext : d.folded.display = d'.folded.display) : d.Same d' :=
  h.legible.same_of_display h.wf h'.wf h'.legible htext

variable {a : Aggregate} {order : List MapOp → List Str}

theorem find?_initialLoad (hstocked : Stocked c p.id whitelist)
    (hload : initialLoad p whitelist c .new = .ok a) {text : Str} {dn : Dn} :
    a.entries.find? text = some (dn, e) ↔ ∃ d, Tree.StoredAs c p.id d e ∧ dn = d.folded ∧
      text = dn.display ∧ (Key.entryKey p.id d = Key.entryKey p.id p.baseDn ∨
        Key.subtreePrefix p.id p.baseDn <+: Key.entryKey p.id d) := by
  obtain ⟨rows, hrows, hload⟩ := Outcome.bind_eq_ok.mp hload
  cases hload
  have hsound : ∀ {text dn e}, (loadRows p whitelist rows .new).entries.find? text = some (dn, e) →
      ∃ d, Tree.StoredAs c p.id d e ∧ dn = d.folded ∧ text = dn.display ∧
        (Key.entryKey p.id d = Key.entryKey p.id p.baseDn ∨
          Key.subtreePrefix p.id p.baseDn <+: Key.entryKey p.id d) := by
    intro text dn e hfind
    obtain hnew | ⟨k, e₀, hrow, hdn, rfl, htext⟩ := find?_loadRows hfind
    · cases hnew
    · obtain ⟨hkey, hrange⟩ := (Tree.mem_scanSubtree hrows).mp hrow
      obtain ⟨d, e, rfl, heq, hstored⟩ :=
        Tree.exists_storedAs hstocked.names hkey (Tree.isPrefix_treeRoot hrange)
      cases heq
      cases hstored.dnFromTreeKey.symm.trans hdn
      rw [hstocked.project hstored]
      exact ⟨d, hstored, rfl, htext, hrange⟩
  constructor
  · exact hsound
  · rintro ⟨d, hstored, rfl, rfl, hrange⟩
    have hrow := (Tree.mem_scanSubtree hrows).mpr ⟨hstored.find, hrange⟩
    have hsome : ((loadRows p whitelist rows .new).entries.find? d.folded.display).isSome = true :=
      isSome_loadRows hrow hstored.dnFromTreeKey
    obtain ⟨⟨dn, e'⟩, hfind⟩ := Option.isSome_iff_exists.mp hsome
    obtain ⟨d', hstored', rfl, htext, -⟩ := hsound hfind
    have hsame := same_of_display hstored hstored' htext
    rw [Dn.folded_congr hsame, hstored.entry_eq hstored' hsame, ← htext]
    exact hfind

theorem length_initialLoad_le (hload : initialLoad p whitelist c .new = .ok a) :
    a.entries.entries.length ≤ c.kv.entries.length := by
  obtain ⟨rows, hrows, hload⟩ := Outcome.bind_eq_ok.mp hload
  cases hload
  have hle : (loadRows p whitelist rows .new).entries.entries.length ≤ 0 + rows.length :=
    length_loadRows_le rows .new
  rw [Nat.zero_add] at hle
  exact hle.trans (Tree.length_scanSubtree_le hrows)

theorem inRange_iff_of_isWithin {b : Dn} (h : Tree.StoredAs c p.id d e)
    (hwithin : d.isWithin b = true) :
    (Key.entryKey p.id d = Key.entryKey p.id b ∨
      Key.subtreePrefix p.id b <+: Key.entryKey p.id d) ↔
      (b.isEmpty = true → d.isEmpty = true) := by
  cases hb : b.isEmpty with
  | false => exact iff_of_true (Tree.entryKey_of_isWithin hwithin hb) nofun
  | true =>
    obtain ⟨rdns⟩ := b
    obtain rfl : rdns = [] := by simpa [Dn.isEmpty] using hb
    have hlegible : Dn.Legible ⟨[]⟩ := by decide
    rw [Tree.inRange_iff h.wf h.legible (by simp [Dn.Wf]) hlegible]
    exact and_iff_right hwithin

theorem Aggregate.Enumerates.mem_snapshot (h : a.Enumerates order) {dn : Dn} :
    (dn, e) ∈ a.snapshot order ↔ ∃ text, a.entries.find? text = some (dn, e) := by
  rw [Aggregate.snapshot, List.mem_filterMap]
  constructor
  · rintro ⟨text, -, hfind⟩
    exact ⟨text, hfind⟩
  · rintro ⟨text, hfind⟩
    exact ⟨text, (h.mem text).mpr (by simp [hfind]), hfind⟩

theorem Aggregate.Enumerates.length_snapshot_le (h : a.Enumerates order) :
    (a.snapshot order).length ≤ a.entries.entries.length := by
  have hsubset : order a.history ⊆ a.entries.entries.map Prod.fst := by
    intro text htext
    obtain ⟨v, hv⟩ := Option.isSome_iff_exists.mp ((h.mem text).mp htext)
    exact List.mem_map.mpr ⟨(text, v), OrderedMap.mem_entries_iff.mpr hv, rfl⟩
  have hle := (List.subperm_of_subset h.nodup hsubset).length_le
  rw [List.length_map] at hle
  exact (List.length_filterMap_le _ _).trans hle

theorem exists_replicated (hstocked : Stocked c p.id whitelist)
    (hload : initialLoad p whitelist c .new = .ok a) (horder : a.Enumerates order)
    (hbase : base.isWithin p.baseDn = true) {scope : Scope}
    (hscope : scope = .singleLevel ∨ scope = .wholeSubtree) :
    ∃ rows, candidates order a scope base = .ok rows ∧
      rows.length ≤ c.kv.entries.length ∧
      ∀ dn e, (dn, e) ∈ rows ↔ ∃ d ∈ scope.names base, Tree.StoredAs c p.id d e ∧
        dn = d.folded ∧ (p.baseDn.isEmpty = true → d.isEmpty = true) := by
  have hlength := horder.length_snapshot_le.trans (length_initialLoad_le hload)
  have hwithin : ∀ dn e,
      (dn, e) ∈ (a.snapshot order).filter (fun row => row.1.isWithin base) ↔
        ∃ d, Tree.StoredAs c p.id d e ∧ dn = d.folded ∧ d.isWithin base = true ∧
          (p.baseDn.isEmpty = true → d.isEmpty = true) := by
    intro dn e
    rw [List.mem_filter, horder.mem_snapshot]
    simp only [find?_initialLoad hstocked hload]
    constructor
    · rintro ⟨⟨text, d, hstored, rfl, -, hrange⟩, hd⟩
      rw [Dn.isWithin_congr d.folded_same] at hd
      exact ⟨d, hstored, rfl, hd,
        (inRange_iff_of_isWithin hstored (Dn.isWithin_trans hd hbase)).mp hrange⟩
    · rintro ⟨d, hstored, rfl, hd, hempty⟩
      refine ⟨⟨_, d, hstored, rfl, rfl, ?_⟩, by rwa [Dn.isWithin_congr d.folded_same]⟩
      exact (inRange_iff_of_isWithin hstored (Dn.isWithin_trans hd hbase)).mpr hempty
  obtain rfl | rfl := hscope
  · exact ⟨_, rfl, (List.length_filter_le _ _).trans ((List.length_filter_le _ _).trans hlength),
      mem_singleLevel hwithin⟩
  · exact ⟨_, rfl, (List.length_filter_le _ _).trans hlength, mem_wholeSubtree hwithin⟩

variable {u : Unicode} {req : SearchRequest} {srv : Searcher} {s : Store}

theorem limit_of_unlimited (h : req.sizeLimit = 0) {n : Nat} (hn : n < 2 ^ 64) : n ≤ req.limit := by
  rw [SearchRequest.limit, if_pos h]
  omega

theorem mem_shownRows_replica (hstocked : Stocked c p.id whitelist)
    (hload : initialLoad p whitelist c .new = .ok a) (horder : a.Enumerates order)
    (hparse : Dn.parse req.baseObject = .ok base) (hbase : base.isWithin p.baseDn = true)
    (hscope : req.scope = .singleLevel ∨ req.scope = .wholeSubtree) (hlimit : req.sizeLimit = 0)
    (hfits : c.kv.entries.length < 2 ^ 64) (registry : PartitionRegistry)
    {r : Str × Str × Multiset Bytes} :
    r ∈ shownRows (handleSearch u order ⟨registry, a⟩ req) ↔
      ∃ d e name, Tree.StoredAs c p.id d e ∧ Asked u req base d e name ∧
        (p.baseDn.isEmpty = true → d.isEmpty = true) ∧
          r = (d.folded.display, name,
            (shownVals req (fun _ v => v.toUtf8) e name : Multiset Bytes)) := by
  obtain ⟨rows, hrows, hlength, hmem⟩ := exists_replicated hstocked hload horder hbase hscope
  have hroot : ¬ (base.isEmpty = true ∧ req.scope = .baseObject) := by
    rintro ⟨-, hbaseObject⟩
    simp [hbaseObject] at hscope
  have hhandle : handleSearch u order ⟨registry, a⟩ req =
      req.answer u (projectAttributes req) 0 rows := by
    simp [handleSearch, hparse, hroot, hrows]
  have hempty : base.isEmpty = true → p.baseDn.isEmpty = true := by
    intro h
    have hdepth := Dn.depth_le_of_isWithin hbase
    rw [Dn.isEmpty, List.isEmpty_iff_length_eq_zero] at h ⊢
    rw [Dn.depth, Dn.depth, h] at hdepth
    omega
  have hanswer : r ∈ shownRows (req.answer u (projectAttributes req) 0 rows) ↔ _ :=
    mem_shownRows_answer (limit_of_unlimited hlimit (hlength.trans_lt hfits))
  rw [hhandle, hanswer]
  constructor
  · rintro ⟨dn, e, hrow, hhit, name, hname, hrequested, rfl⟩
    obtain ⟨d, hd, hstored, rfl, hreplicated⟩ := (hmem dn e).mp hrow
    exact ⟨d, e, name, hstored,
      ⟨hd, fun h => hreplicated (hempty h), hhit, hname, hrequested⟩, hreplicated, rfl⟩
  · rintro ⟨d, e, name, hstored, hasked, hreplicated, rfl⟩
    exact ⟨_, e, (hmem _ e).mpr ⟨d, hasked.scope, hstored, rfl, hreplicated⟩, hasked.hit, name,
      hasked.present, hasked.requested, rfl⟩

theorem mem_shownRows_directory (hres : s.registry.resolve base = some p)
    (hstocked : Stocked (s.clusters p.cluster) p.id whitelist)
    (hread : Tree.Answers (s.clusters p.cluster) p.id base)
    (hparse : Dn.parse req.baseObject = .ok base) (hdecodes : Tree.Decodes p.id base)
    (hscope : req.scope = .singleLevel ∨ req.scope = .wholeSubtree) (hlimit : req.sizeLimit = 0)
    (hreferral : srv.referrals.topology = none)
    (hfits : (s.clusters p.cluster).kv.entries.length < 2 ^ 64)
    {r : Str × Str × Multiset Bytes} :
    r ∈ shownRows (srv.handleSearch s req) ↔
      ∃ d e name, Tree.StoredAs (s.clusters p.cluster) p.id d e ∧
        Asked srv.unicode req base d e name ∧
          r = (d.folded.display, name, (shownVals req SearchRequest.wire e name : Multiset Bytes)) := by
  obtain ⟨rows, hrows, -, hlength, hmem⟩ :=
    exists_candidates hres hread hstocked.names (Dn.parse_wf hparse) hdecodes srv hscope
  have hroot : ¬ (base.isEmpty = true ∧ req.scope = .baseObject) := by
    rintro ⟨-, hbaseObject⟩
    simp [hbaseObject] at hscope
  have hanswer : r ∈ shownRows (req.answer srv.unicode req.projectAttributes 0 rows) ↔ _ :=
    mem_shownRows_answer (limit_of_unlimited hlimit (hlength.trans_lt hfits))
  rw [handleSearch_of_candidates hparse hroot hreferral hrows, hanswer]
  have hreturned : ∀ {d e name}, Tree.StoredAs (s.clusters p.cluster) p.id d e →
      name ∈ e.attrNames → req.returned name = (req.wantAll || req.explicitlyRequested name) := by
    intro d e name hstored hname
    rw [SearchRequest.returned, hstocked.not_isUserPassword hstored hname, if_neg (by decide)]
  constructor
  · rintro ⟨dn, e, hrow, hhit, name, hname, hrequested, rfl⟩
    obtain ⟨d, hd, hstored, rfl, hreached⟩ := (hmem dn e).mp hrow
    rw [hreturned hstored hname] at hrequested
    exact ⟨d, e, name, hstored, ⟨hd, hreached, hhit, hname, hrequested⟩, rfl⟩
  · rintro ⟨d, e, name, hstored, hasked, rfl⟩
    refine ⟨_, e, (hmem _ e).mpr ⟨d, hasked.scope, hstored, rfl, hasked.reached⟩, hasked.hit, name,
      hasked.present, ?_, rfl⟩
    rw [hreturned hstored hasked.present]
    exact hasked.requested

/-- A search of the replica and one of the directory show the same rows exactly
if every entry asked for is replicated and none of its values has to be
decoded. -/
theorem shownRows_eq_iff (srv : Searcher) (registry : PartitionRegistry)
    (hres : s.registry.resolve base = some p)
    (hstocked : Stocked (s.clusters p.cluster) p.id whitelist)
    (hload : initialLoad p whitelist (s.clusters p.cluster) .new = .ok a)
    (horder : a.Enumerates order) (hread : Tree.Answers (s.clusters p.cluster) p.id base)
    (hparse : Dn.parse req.baseObject = .ok base) (hdecodes : Tree.Decodes p.id base)
    (hscope : req.scope = .singleLevel ∨ req.scope = .wholeSubtree) (hlimit : req.sizeLimit = 0)
    (hreferral : srv.referrals.topology = none)
    -- both handlers collect their rows in vectors, whose lengths are machine words
    (hfits : (s.clusters p.cluster).kv.entries.length < 2 ^ 64) :
    shownRows (handleSearch srv.unicode order ⟨registry, a⟩ req) =
        shownRows (srv.handleSearch s req) ↔
      ∀ d e name, Tree.StoredAs (s.clusters p.cluster) p.id d e →
        Asked srv.unicode req base d e name → Shared p req d e name := by
  have hbase := (PartitionRegistry.resolve_mem hres).2
  have hreplica : ∀ r, r ∈ shownRows (handleSearch srv.unicode order ⟨registry, a⟩ req) ↔ _ :=
    fun r => mem_shownRows_replica hstocked hload horder hparse hbase hscope hlimit hfits registry
  have hdirectory : ∀ r, r ∈ shownRows (srv.handleSearch s req) ↔ _ := fun r =>
    mem_shownRows_directory hres hstocked hread hparse hdecodes hscope hlimit hreferral hfits
  rw [Set.ext_iff]
  simp only [hreplica, hdirectory]
  constructor
  · intro h d e name hstored hasked
    obtain ⟨d', e', name', hstored', hasked', hreplicated, heq⟩ :=
      (h _).mpr ⟨d, e, name, hstored, hasked, rfl⟩
    obtain ⟨htext, hrest⟩ := Prod.mk.inj heq
    obtain ⟨rfl, hvals⟩ := Prod.mk.inj hrest
    have hsame := same_of_display hstored hstored' htext
    obtain rfl := hstored.entry_eq hstored' hsame
    refine ⟨fun hempty => ?_, shownVals_eq_iff.mp hvals.symm⟩
    rw [Dn.isEmpty_congr hsame]
    exact hreplicated hempty
  · intro h r
    constructor
    · rintro ⟨d, e, name, hstored, hasked, -, rfl⟩
      have hvals := shownVals_eq_iff.mpr (h d e name hstored hasked).textual
      exact ⟨d, e, name, hstored, hasked, by rw [hvals]⟩
    · rintro ⟨d, e, name, hstored, hasked, rfl⟩
      have hshared := h d e name hstored hasked
      have hvals := shownVals_eq_iff.mpr hshared.textual
      exact ⟨d, e, name, hstored, hasked, hshared.replicated, by rw [hvals]⟩

section Samples

open Tracked (corp corpPerson withMail)

def holding (rows : List (Dn × Entry)) : Store :=
  ⟨.singleton corp, fun _ => { Cluster.empty with
    kv := rows.foldr (fun row kv => kv.insert (Key.entryKey corp.id row.1) (.entry row.2)) .empty }⟩

instance (whitelist : List Str) (e : Entry) : Decidable (Whitelisted whitelist e) :=
  inferInstanceAs (Decidable (∀ name ∈ e.attrNames, _ = true))

theorem stocked_holding {rows : List (Dn × Entry)}
    (h : ∀ row ∈ rows, row.1.Wf ∧ row.1.Legible ∧ row.2.Folded ∧ Whitelisted whitelist row.2 ∧
      row.2.get userPasswordAttr = none) :
    Stocked ((holding rows).clusters corp.cluster) corp.id whitelist := by
  induction rows with
  | nil =>
    have hnone : ∀ d e, ¬ Tree.StoredAs ((holding []).clusters corp.cluster) corp.id d e :=
      fun d e hstored => nomatch hstored.find
    exact ⟨nofun, fun d e hd => absurd hd (hnone d e), fun d e hd => absurd hd (hnone d e),
      fun d e hd => absurd hd (hnone d e)⟩
  | cons row rows ih =>
    obtain ⟨hwf, hlegible, hfolded, hwhite, hpassword⟩ := h row List.mem_cons_self
    have hrest := ih fun row' hrow => h row' (List.mem_cons_of_mem _ hrow)
    have hcases : ∀ d e, Tree.StoredAs ((holding (row :: rows)).clusters corp.cluster) corp.id d e →
        e = row.2 ∨ Tree.StoredAs ((holding rows).clusters corp.cluster) corp.id d e := by
      intro d e hstored
      have hfind := hstored.find
      rw [holding, List.foldr_cons, OrderedMap.find?_insert] at hfind
      split at hfind
      · cases hfind
        exact .inl rfl
      · exact .inr ⟨hstored.wf, hstored.decodes, hfind⟩
    refine ⟨hrest.names.insert ⟨hwf, (Tree.decodes_iff_legible hwf).mpr hlegible⟩ row.2, ?_, ?_, ?_⟩
    · intro d e hstored
      obtain rfl | hold := hcases d e hstored
      · exact hfolded
      · exact hrest.folded d e hold
    · intro d e hstored
      obtain rfl | hold := hcases d e hstored
      · exact hwhite
      · exact hrest.covered d e hold
    · intro d e hstored
      obtain rfl | hold := hcases d e hstored
      · exact hpassword
      · exact hrest.noPassword d e hold

theorem decodes_corp : Tree.Decodes corp.id corp.baseDn :=
  (Tree.decodes_iff_legible (Dn.parse_wf (s := "dc=corp") rfl)).mpr (by decide +kernel)

def salesPerson (cn : Str) : Dn := ⟨⟨[⟨"cn", cn⟩]⟩ :: ⟨[⟨"ou", "Sales"⟩]⟩ :: corp.baseDn.rdns⟩

def named (cn : Str) (mail : List Str) : Entry := (Entry.new.set "cn" [cn]).set "mail" mail

def staff : List (Dn × Entry) :=
  [(corpPerson "Alice", named "Alice" ["alice@corp", "admin@corp"]),
    (corpPerson "Bob", named "Bob" ["bob@corp"]),
    (salesPerson "Carol", named "Carol" ["carol@corp"])]

def staffReplica : Aggregate :=
  (((Aggregate.new.upsert (corpPerson "alice") (named "Alice" ["alice@corp", "admin@corp"])).upsert
    (corpPerson "bob") (named "Bob" ["bob@corp"])).upsert
    ⟨⟨[⟨"cn", "carol"⟩]⟩ :: ⟨[⟨"ou", "sales"⟩]⟩ :: corp.baseDn.rdns⟩
    (named "Carol" ["carol@corp"])).markReady corp.id

def staffOrder (_ : List MapOp) : List Str :=
  ["cn=alice,dc=corp", "cn=carol,ou=sales,dc=corp", "cn=bob,dc=corp"]

theorem staff_stocked :
    Stocked ((holding staff).clusters corp.cluster) corp.id ["cn", "mail"] := by
  have hchecked : ∀ row ∈ staff, row.1.Legible ∧ Whitelisted ["cn", "mail"] row.2 ∧
      row.2.get userPasswordAttr = none := by
    decide +kernel
  have hbuilt : ∀ row ∈ staff, row.1.Wf ∧ row.2.Folded := by
    intro row hrow
    simp only [staff, List.mem_cons, List.not_mem_nil, or_false] at hrow
    obtain rfl | rfl | rfl := hrow
    · exact ⟨Dn.parse_wf (s := "cn=Alice,dc=corp") rfl, (Entry.folded_new.set _ _).set _ _⟩
    · exact ⟨Dn.parse_wf (s := "cn=Bob,dc=corp") rfl, (Entry.folded_new.set _ _).set _ _⟩
    · exact ⟨Dn.parse_wf (s := "cn=Carol,ou=Sales,dc=corp") rfl,
        (Entry.folded_new.set _ _).set _ _⟩
  refine stocked_holding fun row hrow => ?_
  obtain ⟨hlegible, hwhite, hpassword⟩ := hchecked row hrow
  exact ⟨(hbuilt row hrow).1, hlegible, (hbuilt row hrow).2, hwhite, hpassword⟩

theorem isSome_find?_upsert (a : Aggregate) (dn : Dn) (e : Entry) (text : Str) :
    ((a.upsert dn e).entries.find? text).isSome = true ↔
      text = dn.display ∨ (a.entries.find? text).isSome = true := by
  rw [Aggregate.upsert, OrderedMap.find?_insert]
  split
  · next h => exact iff_of_true rfl (.inl h)
  · next h => exact (or_iff_right h).symm

theorem staff_enumerates : staffReplica.Enumerates staffOrder where
  nodup := by decide +kernel
  mem := by
    intro text
    have hempty : (Aggregate.new.entries.find? text).isSome = false := rfl
    rw [staffReplica, Aggregate.markReady, isSome_find?_upsert, isSome_find?_upsert,
      isSome_find?_upsert, hempty]
    simp only [staffOrder, List.mem_cons, List.not_mem_nil, or_false, Bool.false_eq_true]
    rw [or_rotate]
    rfl

def oneBelowCorp : SearchRequest := { allBelowCorp with scope := .singleLevel }

theorem shownRows_eq_mail :
    (handleSearch .ascii staffOrder ⟨.new, staffReplica⟩ allBelowCorp).length = 4 ∧
    (handleSearch .ascii staffOrder ⟨.new, staffReplica⟩ oneBelowCorp).length = 3 ∧
    ∀ req ∈ [allBelowCorp, oneBelowCorp],
      shownRows (handleSearch .ascii staffOrder ⟨.new, staffReplica⟩ req) =
        shownRows (corpSearcher.handleSearch (holding staff) req) := by
  refine ⟨by decide +kernel, by decide +kernel, ?_⟩
  have hshared : ∀ req d e name, Tree.StoredAs ((holding staff).clusters corp.cluster) corp.id d e →
      Asked .ascii req corp.baseDn d e name → Shared corp req d e name := by
    intro req d e name hstored hasked
    refine ⟨nofun, fun _ v _ hbinary => ?_⟩
    have hname := staff_stocked.covered d e hstored name hasked.present
    obtain ⟨w, hw, hlower⟩ := List.any_eq_true.mp hname
    rw [Str.eqIgnoreAsciiCase, beq_iff_eq] at hlower
    rw [← isBinaryAttr_congr hlower] at hbinary
    have hall : ∀ w ∈ [Str.ofString "cn", Str.ofString "mail"], isBinaryAttr w = false := by decide
    rw [hall w hw] at hbinary
    cases hbinary
  intro req hreq
  simp only [List.mem_cons, List.not_mem_nil, or_false] at hreq
  obtain rfl | rfl := hreq
  · exact (shownRows_eq_iff corpSearcher .new rfl staff_stocked rfl staff_enumerates ⟨rfl, rfl⟩ rfl
      decodes_corp (.inr rfl) rfl rfl (by decide +kernel)).mpr (hshared _)
  · exact (shownRows_eq_iff corpSearcher .new rfl staff_stocked rfl staff_enumerates ⟨rfl, rfl⟩ rfl
      decodes_corp (.inl rfl) rfl rfl (by decide +kernel)).mpr (hshared _)

def onlyAlice (e : Entry) : Store := holding [(corpPerson "Alice", e)]

def aliceReplica (e : Entry) : Aggregate :=
  (Aggregate.new.upsert (corpPerson "alice") e).markReady corp.id

def aliceOrder (_ : List MapOp) : List Str := ["cn=alice,dc=corp"]

def withSid : Entry := Entry.new.set "objectsid" ["AQ=="]

def sidsBelowCorp : SearchRequest :=
  ⟨"dc=corp", .wholeSubtree, 0, false, .present "objectsid", ["*"]⟩

/-- A SID is sent as the text it is kept as by one server and decoded by the
other. -/
theorem not_shownRows_eq_sid :
    Stocked ((onlyAlice withSid).clusters corp.cluster) corp.id ["objectsid"] ∧
    initialLoad corp ["objectsid"] ((onlyAlice withSid).clusters corp.cluster) .new =
      .ok (aliceReplica withSid) ∧
    handleSearch .ascii aliceOrder ⟨.new, aliceReplica withSid⟩ sidsBelowCorp =
      [.entry ⟨"cn=alice,dc=corp", [⟨"objectsid", [Str.toUtf8 "AQ=="]⟩]⟩,
        .done (.new .success "")] ∧
    corpSearcher.handleSearch (onlyAlice withSid) sidsBelowCorp =
      [.entry ⟨"cn=alice,dc=corp", [⟨"objectsid", [[1]]⟩]⟩, .done (.new .success "")] ∧
    shownRows (handleSearch .ascii aliceOrder ⟨.new, aliceReplica withSid⟩ sidsBelowCorp) ≠
      shownRows (corpSearcher.handleSearch (onlyAlice withSid) sidsBelowCorp) := by
  have hreplica : handleSearch .ascii aliceOrder ⟨.new, aliceReplica withSid⟩ sidsBelowCorp =
      [.entry ⟨"cn=alice,dc=corp", [⟨"objectsid", [Str.toUtf8 "AQ=="]⟩]⟩,
        .done (.new .success "")] := by decide +kernel
  have hdirectory : corpSearcher.handleSearch (onlyAlice withSid) sidsBelowCorp =
      [.entry ⟨"cn=alice,dc=corp", [⟨"objectsid", [[1]]⟩]⟩, .done (.new .success "")] := by
    decide +kernel
  have hstocked : Stocked ((onlyAlice withSid).clusters corp.cluster) corp.id ["objectsid"] := by
    apply stocked_holding
    rintro row hrow
    obtain rfl := List.mem_singleton.mp hrow
    exact ⟨Dn.parse_wf (s := "cn=Alice,dc=corp") rfl, by decide +kernel, Entry.folded_new.set _ _,
      by decide +kernel, rfl⟩
  refine ⟨hstocked, rfl, hreplica, hdirectory, ?_⟩
  rw [hreplica, hdirectory]
  intro h
  have hrow : ((Str.ofString "cn=alice,dc=corp", Str.ofString "objectsid",
      (([[1]] : List Bytes) : Multiset Bytes)) : Str × Str × Multiset Bytes) ∈
      shownRows [.entry ⟨"cn=alice,dc=corp", [⟨"objectsid", [[1]]⟩]⟩, .done (.new .success "")] :=
    ⟨_, List.mem_cons_self, _, List.mem_cons_self, rfl⟩
  rw [← h] at hrow
  simp [shownRows] at hrow
  revert hrow
  decide +kernel

end Samples

end Handlers

end IronDirectory.Gc
