import IronDirectory.Defs.Ldap.SearchLaws

namespace IronDirectory.Ldap

open Base Naming Storage Kdc Outcome

def ntowfAttr : Str := "netlogonntowf"

def keyAttrs : List Str := [attrKey, ntowfAttr]

/-- The attributes whose values must not be shown. -/
def Secret (name : Str) : Prop := name.asciiLower ∈ userPasswordAttr :: keyAttrs

instance (name : Str) : Decidable (Secret name) := by
  unfold Secret
  infer_instance

def ValuesAlike (name : Str) (values values' : List Str) : Prop :=
  values.length = values'.length ∧ (¬ Secret name → values = values')

def EntryAlike (e e' : Entry) : Prop := OrderedMap.Alike ValuesAlike e.attrs e'.attrs

inductive ValueAlike : Value → Value → Prop
  | entry {e e' : Entry} : EntryAlike e e' → ValueAlike (.entry e) (.entry e')
  | text (s : Str) : ValueAlike (.text s) (.text s)

structure ClusterAlike (c c' : Cluster) : Prop where
  kv : OrderedMap.Alike (fun _ => ValueAlike) c.kv c'.kv
  readFailure : c.readFailure = c'.readFailure
  writeFailure : c.writeFailure = c'.writeFailure

/-- The stores differ only in the values of secret attributes. -/
structure StoreAlike (s s' : Store) : Prop where
  registry : s.registry = s'.registry
  clusters : ∀ ref, ClusterAlike (s.clusters ref) (s'.clusters ref)

theorem valuesAlike_refl (name : Str) (values : List Str) : ValuesAlike name values values :=
  ⟨rfl, fun _ => rfl⟩

namespace EntryAlike

variable {e e' : Entry}

theorem attrNames (h : EntryAlike e e') : e.attrNames = e'.attrNames := OrderedMap.Alike.keys h

theorem get (h : EntryAlike e e') {attr : Str} (hattr : ¬ Secret attr) :
    e.get attr = e'.get attr := by
  have hopen : ¬ Secret attr.asciiLower := by rwa [Secret, Str.asciiLower_asciiLower]
  have hfind := OrderedMap.Alike.find? h attr.asciiLower
  rw [Entry.get, Entry.get]
  generalize e.attrs.find? attr.asciiLower = o, e'.attrs.find? attr.asciiLower = o' at hfind
  cases hfind with
  | none => rfl
  | some hvalues => rw [hvalues.2 hopen]

theorem valuesOf (h : EntryAlike e e') {attr : Str} (hattr : ¬ Secret attr) :
    e.valuesOf attr = e'.valuesOf attr := by
  rw [Entry.valuesOf, h.get hattr, Entry.valuesOf]

theorem length_valuesOf (h : EntryAlike e e') (attr : Str) :
    (e.valuesOf attr).length = (e'.valuesOf attr).length := by
  have hfind := OrderedMap.Alike.find? h attr.asciiLower
  rw [Entry.valuesOf, Entry.valuesOf, Entry.get, Entry.get]
  generalize e.attrs.find? attr.asciiLower = o, e'.attrs.find? attr.asciiLower = o' at hfind
  cases hfind with
  | none => rfl
  | some hvalues => exact hvalues.1

end EntryAlike

section Reads

variable {c c' : Cluster} {s s' : Store} {dn : Dn}

def RowAlike (row row' : Dn × Entry) : Prop := row.1 = row'.1 ∧ EntryAlike row.2 row'.2

theorem ClusterAlike.get (h : ClusterAlike c c') (key : Str) :
    Agree (Option.Rel ValueAlike) (c.get key) (c'.get key) := by
  rw [Cluster.get, Cluster.get, h.readFailure]
  split
  · exact .error _
  · exact .ok (h.kv.find? key)

theorem ClusterAlike.getPrefix (h : ClusterAlike c c') (pfx : Str) :
    Agree (List.Forall₂ fun a b => a.1 = b.1 ∧ ValueAlike a.2 b.2) (c.getPrefix pfx)
      (c'.getPrefix pfx) := by
  rw [Cluster.getPrefix, Cluster.getPrefix, h.readFailure]
  split
  · exact .error _
  · exact .ok (h.kv.scan _)

theorem ValueAlike.decode {v v' : Value} (h : ValueAlike v v') :
    Agree EntryAlike v.decode v'.decode := by
  cases h with
  | entry he => exact .ok he
  | text s => exact .error _

theorem ClusterAlike.readEntry (h : ClusterAlike c c') (pid : PartitionId) (dn : Dn) :
    Agree (Option.Rel EntryAlike) (Index.readEntry c pid dn) (Index.readEntry c' pid dn) := by
  refine (h.get _).bind fun o o' ho => ?_
  cases ho with
  | none => exact .ok .none
  | some hv => exact hv.decode.bind fun _ _ he => .ok (.some he)

theorem ClusterAlike.scanSubtree (h : ClusterAlike c c') (pid : PartitionId) (dn : Dn) :
    Agree (List.Forall₂ fun a b => a.1 = b.1 ∧ ValueAlike a.2 b.2) (Tree.scanSubtree c pid dn)
      (Tree.scanSubtree c' pid dn) := by
  refine (h.getPrefix _).bind fun rows rows' hrows => (h.get _).bind fun o o' ho => ?_
  cases ho with
  | none => exact .ok hrows
  | some hv => exact .ok (.cons ⟨rfl, hv⟩ hrows)

theorem readRow_alike (pid : PartitionId) (row row' : Str × Value)
    (h : row.1 = row'.1 ∧ ValueAlike row.2 row'.2) :
    Agree RowAlike (Tree.readRow pid row) (Tree.readRow pid row') := by
  rw [Tree.readRow, Tree.readRow, h.1]
  cases Tree.dnFromTreeKey pid row'.1 with
  | error e => exact .error e
  | ok dn => exact h.2.decode.bind fun _ _ he => .ok ⟨rfl, he⟩

theorem StoreAlike.route (h : StoreAlike s s') (dn : Dn) :
    (∃ e, s.resolve dn = .error e ∧ s'.resolve dn = .error e) ∨
      ∃ p, s.resolve dn = .ok p ∧ s'.resolve dn = .ok p ∧ s.client p.id = s'.client p.id := by
  have hresolve : s.resolve dn = s'.resolve dn := by rw [Store.resolve, Store.resolve, h.registry]
  cases hs : s.resolve dn with
  | error e => exact .inl ⟨e, rfl, hresolve ▸ hs⟩
  | ok p => exact .inr ⟨p, rfl, hresolve ▸ hs, by rw [Store.client, Store.client, h.registry]⟩

theorem StoreAlike.getEntry (h : StoreAlike s s') (dn : Dn) :
    Agree (Option.Rel EntryAlike) (s.getEntry dn) (s'.getEntry dn) := by
  rw [Store.getEntry, Store.getEntry]
  obtain ⟨e, he, he'⟩ | ⟨p, hp, hp', hclient⟩ := h.route dn
  · rw [he, he']
    exact .error e
  · rw [hp, hp', Outcome.ok_bind, Outcome.ok_bind, hclient]
    cases s'.client p.id with
    | error e => exact .error e
    | ok ref => exact (h.clusters ref).readEntry p.id dn

theorem StoreAlike.scanSubtree (h : StoreAlike s s') (dn : Dn) :
    Agree (List.Forall₂ RowAlike) (s.scanSubtree dn) (s'.scanSubtree dn) := by
  rw [Store.scanSubtree, Store.scanSubtree]
  obtain ⟨e, he, he'⟩ | ⟨p, hp, hp', hclient⟩ := h.route dn
  · rw [he, he']
    exact .error e
  · rw [hp, hp', Outcome.ok_bind, Outcome.ok_bind, hclient]
    cases s'.client p.id with
    | error e => exact .error e
    | ok ref =>
      exact ((h.clusters ref).scanSubtree p.id dn).bind fun _ _ hrows =>
        Agree.mapM hrows (readRow_alike p.id)

theorem StoreAlike.candidates (h : StoreAlike s s') (srv : Searcher) (scope : Scope) (dn : Dn) :
    Agree (List.Forall₂ RowAlike) (srv.candidates s scope dn) (srv.candidates s' scope dn) := by
  unfold Searcher.candidates
  cases scope with
  | unrecognized => exact .error _
  | baseObject =>
    have hget := h.getEntry dn
    generalize s.getEntry dn = x, s'.getEntry dn = y at hget
    cases hget with
    | error e => exact .error _
    | ok ho =>
      cases ho with
      | none => exact .error _
      | some he => exact .ok (.cons ⟨rfl, he⟩ .nil)
  | singleLevel =>
    have hscan := h.scanSubtree dn
    generalize s.scanSubtree dn = x, s'.scanSubtree dn = y at hscan
    cases hscan with
    | error e => exact .error _
    | ok hrows => exact .ok (List.rel_filter (fun _ _ hrow => by simp [hrow.1]) hrows)
  | wholeSubtree =>
    have hscan := h.scanSubtree dn
    generalize s.scanSubtree dn = x, s'.scanSubtree dn = y at hscan
    cases hscan with
    | error e => exact .error _
    | ok hrows => exact .ok hrows

end Reads

section Filters

mutual

def Filter.attributes : Filter → List Str
  | .and filters => Filter.attributesAll filters
  | .or filters => Filter.attributesAll filters
  | .not inner => Filter.attributes inner
  | .present attr => [attr]
  | .equalityMatch ava => [ava.attributeDesc]
  | .approxMatch ava => [ava.attributeDesc]
  | .substrings sf => [sf.type]
  | .greaterOrEqual ava => [ava.attributeDesc]
  | .lessOrEqual ava => [ava.attributeDesc]
  | .extensibleMatch mra => mra.type.toList
  | .unrecognized => []

def Filter.attributesAll : List Filter → List Str
  | [] => []
  | f :: fs => Filter.attributes f ++ Filter.attributesAll fs

end

mutual

def Filter.typed : Filter → Bool
  | .and filters => Filter.typedAll filters
  | .or filters => Filter.typedAll filters
  | .not inner => Filter.typed inner
  | .extensibleMatch mra => mra.type.isSome
  | _ => true

def Filter.typedAll : List Filter → Bool
  | [] => true
  | f :: fs => Filter.typed f && Filter.typedAll fs

end

/-- No secret value decides whether the filter is TRUE. -/
def Filter.Blind (u : Unicode) (filter : Filter) : Prop :=
  ∀ e e', EntryAlike e e' → Filter.matchesEntry u e filter = Filter.matchesEntry u e' filter

variable {u : Unicode} {e e' : Entry}

theorem EntryAlike.anyValue (h : EntryAlike e e') {attr : Str} (hattr : ¬ Secret attr)
    (test : Str → Bool) : Filter.anyValue e attr test = Filter.anyValue e' attr test := by
  rw [Filter.anyValue, h.get hattr, Filter.anyValue]

mutual

theorem EntryAlike.evaluate (h : EntryAlike e e') : ∀ f : Filter,
    (∀ a ∈ f.attributes, ¬ Secret a) → f.typed = true →
    Filter.evaluate u e f = Filter.evaluate u e' f
  | .and filters, hf, ht => h.evaluateAnd .true filters hf ht
  | .or filters, hf, ht => h.evaluateOr .false filters hf ht
  | .not inner, hf, ht => by
    rw [Filter.evaluate, h.evaluate inner hf ht, Filter.evaluate]
  | .present attr, hf, _ => by
    rw [Filter.evaluate, h.get (hf attr List.mem_cons_self), Filter.evaluate]
  | .equalityMatch ava, hf, _ => h.anyValue (hf _ List.mem_cons_self) _
  | .approxMatch ava, hf, _ => h.anyValue (hf _ List.mem_cons_self) _
  | .substrings sf, hf, _ => by
    rw [Filter.evaluate, Filter.evaluate, Filter.substringsMatch, Filter.substringsMatch]
    cases Filter.components u sf.substrings with
    | none => rfl
    | some c => exact h.anyValue (hf _ List.mem_cons_self) _
  | .greaterOrEqual ava, hf, _ => h.anyValue (hf _ List.mem_cons_self) _
  | .lessOrEqual ava, hf, _ => h.anyValue (hf _ List.mem_cons_self) _
  | .extensibleMatch mra, hf, ht => by
    obtain ⟨t, htype⟩ := Option.isSome_iff_exists.mp ht
    have hopen : ¬ Secret t := hf t (by simp [Filter.attributes, htype])
    simp only [Filter.evaluate, Filter.extensible, htype, h.valuesOf hopen]
  | .unrecognized, _, _ => rfl

theorem EntryAlike.evaluateAnd (h : EntryAlike e e') (result : Tri) : ∀ fs : List Filter,
    (∀ a ∈ Filter.attributesAll fs, ¬ Secret a) → Filter.typedAll fs = true →
    Filter.evaluateAnd u e result fs = Filter.evaluateAnd u e' result fs
  | [], _, _ => rfl
  | f :: fs, hf, ht => by
    rw [Filter.attributesAll, List.forall_mem_append] at hf
    rw [Filter.typedAll, Bool.and_eq_true] at ht
    rw [Filter.evaluateAnd, Filter.evaluateAnd, h.evaluate f hf.1 ht.1,
      h.evaluateAnd .undefined fs hf.2 ht.2, h.evaluateAnd result fs hf.2 ht.2]

theorem EntryAlike.evaluateOr (h : EntryAlike e e') (result : Tri) : ∀ fs : List Filter,
    (∀ a ∈ Filter.attributesAll fs, ¬ Secret a) → Filter.typedAll fs = true →
    Filter.evaluateOr u e result fs = Filter.evaluateOr u e' result fs
  | [], _, _ => rfl
  | f :: fs, hf, ht => by
    rw [Filter.attributesAll, List.forall_mem_append] at hf
    rw [Filter.typedAll, Bool.and_eq_true] at ht
    rw [Filter.evaluateOr, Filter.evaluateOr, h.evaluate f hf.1 ht.1,
      h.evaluateOr .undefined fs hf.2 ht.2, h.evaluateOr result fs hf.2 ht.2]

end

theorem Filter.blind_of_typed {f : Filter} (hf : ∀ a ∈ f.attributes, ¬ Secret a)
    (ht : f.typed = true) : f.Blind u := fun e e' h => by
  rw [Filter.matchesEntry, h.evaluate f hf ht, Filter.matchesEntry]

end Filters

section Requests

variable {srv : Searcher} {req : SearchRequest} {e e' : Entry}

structure SearchRequest.Discreet (req : SearchRequest) : Prop where
  attributes : ∀ a ∈ req.attributes, ¬ Secret a
  filter : ∀ a ∈ req.filter.attributes, ¬ Secret a

def Searcher.Confidential (srv : Searcher) (req : SearchRequest) : Prop :=
  ∀ s s', StoreAlike s s' → srv.handleSearch s req = srv.handleSearch s' req

def Searcher.rows (srv : Searcher) (store : Store) (req : SearchRequest) :
    Except (List SearchOp) (List (Dn × Entry)) :=
  match Dn.parse req.baseObject with
  | .error _ => .error (done .invalidDnSyntax "invalid base DN")
  | .ok baseDn =>
    if baseDn.isEmpty ∧ req.scope = .baseObject then
      .error (.entry (Rootdse.build (srv.referrals.topology.getD store.registry) srv.fipsActive) ::
        done .success "")
    else
      match srv.referrals.proactiveReferral baseDn with
      | some result => .error [.done result]
      | none => (srv.candidates store req.scope baseDn).mapError fun result => [.done result]

def SearchRequest.Withholds (u : Unicode) (req : SearchRequest) : Prop :=
  req.typesOnly = true ∨ req.wantAll = false ∨
    ∀ e, Filter.matchesEntry u e req.filter = true → ∀ a ∈ keyAttrs, e.valuesOf a = []

/-- Either no entry can come into question, or secrets neither decide the filter
nor are returned. -/
def Searcher.Guarded (srv : Searcher) (req : SearchRequest) : Prop :=
  (∀ store rows, srv.rows store req = .ok rows → rows = []) ∨
    (req.filter.Blind srv.unicode ∧ req.Withholds srv.unicode)

theorem not_returned_of_secret (h : req.Discreet) {name : Str} (hname : Secret name)
    (hreturned : req.returned name = true) :
    req.wantAll = true ∧ name.asciiLower ∈ keyAttrs := by
  have hnot : req.explicitlyRequested name = false := by
    rw [Bool.eq_false_iff]
    intro hexplicit
    obtain ⟨a, ha, heq⟩ := List.any_eq_true.mp hexplicit
    refine h.attributes a ha ?_
    rwa [Secret, eq_of_beq heq]
  rw [SearchRequest.returned, hnot] at hreturned
  split at hreturned
  · cases hreturned
  · next huser =>
    refine ⟨by simpa using hreturned, (List.mem_cons.mp hname).resolve_left fun heq => huser ?_⟩
    rw [isUserPassword, Str.eqIgnoreAsciiCase, heq]
    rfl

theorem EntryAlike.projectAttributes (h : EntryAlike e e') (hreq : req.Discreet)
    (hkeys : req.typesOnly = true ∨ req.wantAll = false ∨ ∀ a ∈ keyAttrs, e.valuesOf a = []) :
    req.projectAttributes e = req.projectAttributes e' := by
  rw [SearchRequest.projectAttributes, SearchRequest.projectAttributes, SearchRequest.projectWith,
    SearchRequest.projectWith, ← h.attrNames]
  refine List.map_congr_left fun name hname => ?_
  by_cases hsecret : Secret name
  · obtain ⟨hall, hkey⟩ := not_returned_of_secret hreq hsecret (List.mem_filter.mp hname).2
    obtain htypes | hwant | hnone := hkeys
    · rw [if_pos htypes, if_pos htypes]
    · cases hall.symm.trans hwant
    · have hempty : e.valuesOf name = [] := by
        rw [← hnone _ hkey]
        exact Entry.valuesOf_congr (Str.asciiLower_asciiLower name).symm e
      have hempty' : e'.valuesOf name = [] := by
        rw [← List.length_eq_zero_iff, ← h.length_valuesOf, hempty, List.length_nil]
      rw [hempty, hempty']
  · rw [h.valuesOf hsecret]

theorem keyAttrs_plain {a : Str} (ha : a ∈ keyAttrs) :
    a.asciiLower = a ∧ isUserPassword a = false ∧ isBinaryAttr a = false := by
  simp only [keyAttrs, List.mem_cons, List.not_mem_nil, or_false] at ha
  obtain rfl | rfl := ha <;> decide +kernel

theorem entryAlike_set {a : Str} {values values' : List Str} (ha : Secret a)
    (hget : e.get a = some values) (hlength : values.length = values'.length) :
    EntryAlike e (e.set a values') := by
  refine OrderedMap.alike_insert valuesAlike_refl hget ⟨hlength, fun hopen => ?_⟩
  rw [Secret, Str.asciiLower_asciiLower] at hopen
  exact absurd ha hopen

theorem exists_alike_of_key {a : Str} (ha : a ∈ keyAttrs) (hvalues : e.valuesOf a ≠ [])
    (htypes : req.typesOnly = false) (hall : req.wantAll = true) :
    ∃ e', EntryAlike e e' ∧ req.projectAttributes e ≠ req.projectAttributes e' := by
  obtain ⟨hlow, hpassword, hbinary⟩ := keyAttrs_plain ha
  have hsecret : Secret a := by
    rw [Secret, hlow]
    exact List.mem_cons_of_mem _ ha
  obtain ⟨v, vs, hget⟩ : ∃ v vs, e.get a = some (v :: vs) := by
    rw [Entry.valuesOf] at hvalues
    cases hget : e.get a with
    | none => simp [hget] at hvalues
    | some values =>
      cases values with
      | nil => simp [hget] at hvalues
      | cons v vs => exact ⟨v, vs, rfl⟩
  have halike : EntryAlike e (e.set a ((v ++ ['x']) :: vs)) := entryAlike_set hsecret hget rfl
  refine ⟨_, halike, fun heq => ?_⟩
  rw [SearchRequest.projectAttributes, SearchRequest.projectAttributes,
    SearchRequest.projectWith, SearchRequest.projectWith, ← halike.attrNames,
    List.map_inj_left] at heq
  have hmem : a ∈ e.attrNames.filter req.returned := by
    rw [Entry.get, hlow] at hget
    refine List.mem_filter.mpr ⟨List.mem_map.mpr ⟨_, OrderedMap.mem_entries_iff.mpr hget, rfl⟩, ?_⟩
    rw [SearchRequest.returned, hpassword, hall]
    rfl
  have hshown := heq a hmem
  simp [htypes, Entry.valuesOf, hget, Entry.get_set, SearchRequest.wire, hbinary,
    Str.toUtf8] at hshown

theorem withholds_iff {u : Unicode} (hreq : req.Discreet) :
    req.Withholds u ↔ ∀ e e', EntryAlike e e' → Filter.matchesEntry u e req.filter = true →
      req.projectAttributes e = req.projectAttributes e' := by
  constructor
  · rintro h e e' halike hmatch
    exact halike.projectAttributes hreq (h.imp_right fun h => h.imp_right fun h => h e hmatch)
  · intro h
    by_contra hnot
    simp only [SearchRequest.Withholds, not_or, not_forall] at hnot
    obtain ⟨htypes, hall, e, hmatch, a, ha, hvalues⟩ := hnot
    obtain ⟨e', halike, hne⟩ := exists_alike_of_key ha hvalues (by simpa using htypes)
      (by simpa using hall)
    exact hne (h e e' halike hmatch)

end Requests

section Answers

variable {srv : Searcher} {req : SearchRequest}

theorem answer_alike {u : Unicode} {project : Entry → List PartialAttribute}
    (hblind : req.filter.Blind u)
    (hproject : ∀ e e', EntryAlike e e' → Filter.matchesEntry u e req.filter = true →
      project e = project e') {rows rows' : List (Dn × Entry)}
    (h : List.Forall₂ RowAlike rows rows') (sent : Nat) :
    req.answer u project sent rows = req.answer u project sent rows' := by
  induction h generalizing sent with
  | nil => rfl
  | @cons row row' rows rows' hrow _ ih =>
    obtain ⟨dn, e⟩ := row
    obtain ⟨dn', e'⟩ := row'
    obtain ⟨rfl, he⟩ := hrow
    rw [SearchRequest.answer, SearchRequest.answer, ← hblind e e' he]
    split
    · next hmatch => rw [hproject e e' he hmatch, ih]
    · exact ih sent

theorem handleSearch_eq (store : Store) :
    srv.handleSearch store req =
      match srv.rows store req with
      | .error ops => ops
      | .ok rows => req.answer srv.unicode req.projectAttributes 0 rows := by
  unfold Searcher.handleSearch Searcher.rows
  cases Dn.parse req.baseObject with
  | error e => rfl
  | ok baseDn =>
    simp only
    split
    · rfl
    · cases srv.referrals.proactiveReferral baseDn with
      | some result => rfl
      | none => cases srv.candidates store req.scope baseDn <;> rfl

theorem StoreAlike.rows {s s' : Store} (h : StoreAlike s s') :
    Agree (List.Forall₂ RowAlike) (srv.rows s req) (srv.rows s' req) := by
  unfold Searcher.rows
  cases Dn.parse req.baseObject with
  | error e => exact .error _
  | ok baseDn =>
    simp only [h.registry]
    split
    · exact .error _
    · cases srv.referrals.proactiveReferral baseDn with
      | some result => exact .error _
      | none =>
        have hrows := h.candidates srv req.scope baseDn
        generalize srv.candidates s req.scope baseDn = x,
          srv.candidates s' req.scope baseDn = y at hrows
        cases hrows with
        | error e => exact .error _
        | ok hrows => exact .ok hrows

end Answers

section Isolated

variable {srv : Searcher} {req : SearchRequest} {store : Store} {dn base : Dn} {e₀ : Entry}

def isolated (reg : PartitionRegistry) (key : Str) (e : Entry) : Store :=
  ⟨reg, fun _ => { Cluster.empty with kv := OrderedMap.empty.insert key (.entry e) }⟩

theorem isolated_alike (reg : PartitionRegistry) (key : Str) {e e' : Entry} (h : EntryAlike e e') :
    StoreAlike (isolated reg key e) (isolated reg key e') :=
  ⟨rfl, fun _ => ⟨.cons ⟨rfl, .entry h⟩ .nil, rfl, rfl⟩⟩

theorem exists_isolated_entry (h : store.getEntry base = .ok (some e₀)) :
    ∃ key, ∀ e, (isolated store.registry key e).getEntry base = .ok (some e) := by
  obtain ⟨p, hp, h⟩ := Outcome.bind_eq_ok.mp h
  obtain ⟨ref, href, -⟩ := Outcome.bind_eq_ok.mp h
  refine ⟨Key.entryKey p.id base, fun e => ?_⟩
  have hp' : (isolated store.registry (Key.entryKey p.id base) e).resolve base = .ok p := hp
  have href' : (isolated store.registry (Key.entryKey p.id base) e).client p.id = .ok ref := href
  rw [Store.getEntry, hp', Outcome.ok_bind, href', Outcome.ok_bind, Index.readEntry]
  simp [isolated, Cluster.get, Cluster.empty, OrderedMap.find?_insert, Value.decode]

theorem scanSubtree_isolated {reg : PartitionRegistry} {ref : ClusterRef} {pid : PartitionId}
    {key : Str} (hkey : key = Key.entryKey pid base ∨ Key.subtreePrefix pid base <+: key)
    (e : Entry) :
    Tree.scanSubtree ((isolated reg key e).clusters ref) pid base = .ok [(key, .entry e)] := by
  have hnot := Key.not_subtreePrefix_isPrefix_self pid base
  have hscan : (OrderedMap.empty.insert key (Value.entry e)).scan
      (fun k => (Key.subtreePrefix pid base).isPrefixOf k) =
        if Key.subtreePrefix pid base <+: key then [(key, .entry e)] else [] := by
    simp [OrderedMap.scan, OrderedMap.insert, OrderedMap.insertList, OrderedMap.empty,
      List.filter_cons]
  rw [Tree.scanSubtree, Cluster.getPrefix, Cluster.get]
  simp only [isolated, Cluster.empty, hscan, Outcome.ok_bind, OrderedMap.find?_insert]
  obtain rfl | hbelow := hkey
  · rw [if_pos rfl, if_neg hnot]
    rfl
  · have hne : Key.entryKey pid base ≠ key := by
      rintro rfl
      exact hnot hbelow
    rw [if_neg hne, if_pos hbelow]
    rfl

theorem exists_isolated_scan {rows : List (Dn × Entry)} (h : store.scanSubtree base = .ok rows)
    (hmem : (dn, e₀) ∈ rows) :
    ∃ key, ∀ e, (isolated store.registry key e).scanSubtree base = .ok [(dn, e)] := by
  obtain ⟨p, hp, h⟩ := Outcome.bind_eq_ok.mp h
  obtain ⟨ref, href, h⟩ := Outcome.bind_eq_ok.mp h
  obtain ⟨found, hfound, h⟩ := Outcome.bind_eq_ok.mp h
  obtain ⟨⟨key, v⟩, hrow, hread⟩ := (Outcome.mem_of_mapM_eq_ok h _).mp hmem
  refine ⟨key, fun e => ?_⟩
  have hp' : (isolated store.registry key e).resolve base = .ok p := hp
  have href' : (isolated store.registry key e).client p.id = .ok ref := href
  have hread' : Tree.readRow p.id (key, .entry e) = .ok (dn, e) :=
    Tree.readRow_eq_ok.mpr ⟨(Tree.readRow_eq_ok.mp hread).1, rfl⟩
  rw [Store.scanSubtree, hp', Outcome.ok_bind, href', Outcome.ok_bind,
    scanSubtree_isolated ((Tree.mem_scanSubtree hfound).mp hrow).2, Outcome.ok_bind, List.mapM_cons,
    hread']
  rfl

theorem exists_isolated_candidates {scope : Scope} {rows : List (Dn × Entry)}
    (h : srv.candidates store scope base = .ok rows) (hmem : (dn, e₀) ∈ rows) :
    ∃ key, ∀ e, srv.candidates (isolated store.registry key e) scope base = .ok [(dn, e)] := by
  unfold Searcher.candidates at h ⊢
  cases scope with
  | unrecognized => cases h
  | baseObject =>
    cases hget : store.getEntry base with
    | error err => simp [hget] at h
    | ok o =>
      cases o with
      | none => simp [hget] at h
      | some e₁ =>
        simp only [hget, Except.ok.injEq] at h
        subst h
        obtain ⟨rfl, rfl⟩ : dn = base ∧ e₀ = e₁ := by simpa using hmem
        obtain ⟨key, hkey⟩ := exists_isolated_entry hget
        exact ⟨key, fun e => by simp only [hkey]⟩
  | singleLevel =>
    cases hscan : store.scanSubtree base with
    | error err => simp [hscan] at h
    | ok found =>
      simp only [hscan, Except.ok.injEq] at h
      subst h
      obtain ⟨hfound, hdepth⟩ := List.mem_filter.mp hmem
      obtain ⟨key, hkey⟩ := exists_isolated_scan hscan hfound
      refine ⟨key, fun e => ?_⟩
      simp only [hkey, List.filter_cons, hdepth, if_true, List.filter_nil]
  | wholeSubtree =>
    obtain ⟨key, hkey⟩ := exists_isolated_scan (Outcome.mapError_eq_ok.mp h) hmem
    exact ⟨key, fun e => Outcome.mapError_eq_ok.mpr (hkey e)⟩

theorem exists_isolated_rows {rows : List (Dn × Entry)} (h : srv.rows store req = .ok rows)
    (hmem : (dn, e₀) ∈ rows) :
    ∃ key, ∀ e, srv.rows (isolated store.registry key e) req = .ok [(dn, e)] := by
  unfold Searcher.rows at h ⊢
  cases hparse : Dn.parse req.baseObject with
  | error err => simp [hparse] at h
  | ok baseDn =>
    simp only [hparse] at h ⊢
    split at h
    · cases h
    · next hroot =>
      cases hrefer : srv.referrals.proactiveReferral baseDn with
      | some result => simp [hrefer] at h
      | none =>
        simp only [hrefer, Outcome.mapError_eq_ok] at h
        obtain ⟨key, hkey⟩ := exists_isolated_candidates h hmem
        refine ⟨key, fun e => ?_⟩
        simp only [if_neg hroot, Outcome.mapError_eq_ok]
        exact hkey e

end Isolated

section Guarded

variable {srv : Searcher} {req : SearchRequest}

theorem shown_of_confidential (h : srv.Confidential req) {reg : PartitionRegistry} {key : Str}
    {dn : Dn} (hkey : ∀ e, srv.rows (isolated reg key e) req = .ok [(dn, e)]) {e e' : Entry}
    (halike : EntryAlike e e') :
    Filter.matchesEntry srv.unicode e req.filter =
        Filter.matchesEntry srv.unicode e' req.filter ∧
      (Filter.matchesEntry srv.unicode e req.filter = true →
        req.projectAttributes e = req.projectAttributes e') := by
  have hans := h _ _ (isolated_alike reg key halike)
  rw [handleSearch_eq, handleSearch_eq, hkey e, hkey e'] at hans
  simp only [answer_single] at hans
  cases hm : Filter.matchesEntry srv.unicode e req.filter <;>
    cases hm' : Filter.matchesEntry srv.unicode e' req.filter <;>
    simp [hm, hm', done] at hans ⊢
  exact hans

theorem guarded_of_confidential (hreq : req.Discreet) (h : srv.Confidential req) :
    srv.Guarded req := by
  by_cases hnone : ∀ store rows, srv.rows store req = .ok rows → rows = []
  · exact .inl hnone
  · simp only [not_forall] at hnone
    obtain ⟨store, rows, hrows, hne⟩ := hnone
    obtain ⟨⟨dn, e₀⟩, hmem⟩ := List.exists_mem_of_ne_nil rows hne
    obtain ⟨key, hkey⟩ := exists_isolated_rows hrows hmem
    refine .inr ⟨fun e e' halike => (shown_of_confidential h hkey halike).1, ?_⟩
    exact (withholds_iff hreq).mpr fun e e' halike => (shown_of_confidential h hkey halike).2

theorem confidential_of_guarded (hreq : req.Discreet) (h : srv.Guarded req) :
    srv.Confidential req := by
  intro s s' halike
  have hrows : Agree (List.Forall₂ RowAlike) (srv.rows s req) (srv.rows s' req) := halike.rows
  rw [handleSearch_eq, handleSearch_eq]
  generalize hx : srv.rows s req = x, srv.rows s' req = y at hrows
  cases hrows with
  | error ops => rfl
  | ok hrel =>
    obtain hnone | ⟨hblind, hwithholds⟩ := h
    · cases hnone _ _ hx
      cases hrel
      rfl
    · exact answer_alike hblind ((withholds_iff hreq).mp hwithholds) hrel 0

end Guarded

/-- For a request that names no secret: its answers are the same whatever the
secrets are, exactly if it is guarded. -/
theorem confidential_iff (srv : Searcher) (req : SearchRequest) (hreq : req.Discreet) :
    srv.Confidential req ↔ srv.Guarded req :=
  ⟨guarded_of_confidential hreq, confidential_of_guarded hreq⟩

section Samples

open Tracked (corp corpPerson)

theorem discreet_readAlice {attributes : List Str} (h : ∀ a ∈ attributes, ¬ Secret a) :
    (readAlice attributes).Discreet := by
  have hcn : ∀ a ∈ (Filter.present "cn").attributes, ¬ Secret a := by decide +kernel
  exact ⟨h, hcn⟩

theorem confidential_readAlice_cn :
    (readAlice ["cn"]).Discreet ∧ corpSearcher.Confidential (readAlice ["cn"]) := by
  have hreq : (readAlice ["cn"]).Discreet := discreet_readAlice (by decide +kernel)
  exact ⟨hreq, (confidential_iff corpSearcher _ hreq).mpr
    (.inr ⟨Filter.blind_of_typed hreq.filter rfl, .inr (.inl rfl)⟩)⟩

def aliceEntry : Entry := (Entry.new.set "cn" ["Alice"]).set attrKey ["18:00"]

def aliceStore (e : Entry) : Store :=
  isolated (.singleton corp) (Key.entryKey corp.id (corpPerson "Alice")) e

/-- An empty attribute list gets the Kerberos keys. -/
theorem krbkey_shown :
    (readAlice []).Discreet ∧
      StoreAlike (aliceStore aliceEntry) (aliceStore (aliceEntry.set attrKey ["18:ff"])) ∧
      corpSearcher.handleSearch (aliceStore aliceEntry) (readAlice []) ≠
        corpSearcher.handleSearch (aliceStore (aliceEntry.set attrKey ["18:ff"]))
          (readAlice []) := by
  have hget : aliceEntry.get attrKey = some ([("18:00" : Str)] : List Str) := by
    rw [aliceEntry, Entry.get_set, if_pos rfl]
  have hsecret : Secret attrKey := by decide +kernel
  exact ⟨discreet_readAlice nofun, isolated_alike _ _ (entryAlike_set hsecret hget (by simp)),
    by decide +kernel⟩

end Samples

end IronDirectory.Ldap
