import IronDirectory.Defs.Ldap.Folding
import IronDirectory.Defs.Ldap.Search

/-! The compare operation, and the equality filter beside it.  Compare ignores
ASCII case only; the filter folds white space and all of Unicode case. -/

namespace IronDirectory.Ldap

open Base Naming Storage

structure CompareRequest where
  entry : Str
  ava : AttributeValueAssertion

def AttributeValueAssertion.want (ava : AttributeValueAssertion) : Str :=
  Utf8.fromUtf8Lossy ava.assertionValue

def CompareRequest.matched (req : CompareRequest) (entry : Entry) : Bool :=
  (entry.get req.ava.attributeDesc).any fun vals => vals.any fun v => v.eqIgnoreAsciiCase req.ava.want

def Searcher.handleCompare (srv : Searcher) (store : Store) (req : CompareRequest) : LdapResult :=
  match Dn.parse req.entry with
  | .error _ => .invalidDn
  | .ok dn =>
    match srv.referrals.proactiveReferral dn with
    | some result => result
    | none =>
      match store.getEntry dn with
      | .ok (some entry) => .new (if req.matched entry then .compareTrue else .compareFalse) ""
      | .ok none => .noSuchObject
      | .error e => srv.referrals.storeErrorResult srv.debugStr e dn

namespace Filter

theorem splitOnP_asciiLower (s : Str) :
    s.asciiLower.splitOnP Str.isWhitespace =
      (s.splitOnP Str.isWhitespace).map Str.asciiLower := by
  induction s with
  | nil => simp [Str.asciiLower]
  | cons c s ih =>
    have hcons : Str.asciiLower (c :: s) = c.toLower :: Str.asciiLower s := rfl
    rw [hcons, List.splitOnP_cons_eq_if_modifyHead, List.splitOnP_cons_eq_if_modifyHead, ih,
      Str.isWhitespace_toLower]
    split
    · rfl
    · cases s.splitOnP Str.isWhitespace <;> rfl

theorem splitWhitespace_asciiLower (s : Str) :
    splitWhitespace s.asciiLower = (splitWhitespace s).map Str.asciiLower := by
  rw [splitWhitespace, splitWhitespace, splitOnP_asciiLower, List.filter_map]
  congr 1
  apply List.filter_congr
  intro w _
  cases w <;> rfl

theorem join_map_asciiLower (ws : List Str) :
    Str.join ' ' (ws.map Str.asciiLower) = (Str.join ' ' ws).asciiLower := by
  induction ws with
  | nil => rfl
  | cons w ws ih =>
    cases ws with
    | nil => simp
    | cons w' ws =>
      rw [List.map_cons, List.map_cons, Str.join_cons_cons, ← List.map_cons, ih, Str.join_cons_cons]
      simp [Str.asciiLower]

theorem fold_congr (tables : CaseTables) {v w : Str} (h : v.eqIgnoreAsciiCase w = true) :
    fold (.ofTables tables) v = fold (.ofTables tables) w := by
  have hself (s : Str) : fold (.ofTables tables) s.asciiLower = fold (.ofTables tables) s := by
    rw [fold, splitWhitespace_asciiLower, join_map_asciiLower]
    exact tables.toLowercase_asciiLower _
  rw [← hself v, beq_iff_eq.mp h, hself w]

/-- Equal as folded text, though not but for ASCII case. -/
def Respells (u : Unicode) (v want : Str) : Prop :=
  fold u v = fold u want ∧ v.eqIgnoreAsciiCase want = false

end Filter

theorem CompareRequest.matched_iff {req : CompareRequest} {entry : Entry} :
    req.matched entry = true ↔ ∃ v ∈ entry.valuesOf req.ava.attributeDesc,
      v.eqIgnoreAsciiCase req.ava.want = true := by
  rw [matched, Entry.valuesOf]
  cases entry.get req.ava.attributeDesc <;> simp

theorem Filter.evaluate_equalityMatch {u : Unicode} {entry : Entry}
    {ava : AttributeValueAssertion} :
    evaluate u entry (.equalityMatch ava) = .true ↔
      ∃ v ∈ entry.valuesOf ava.attributeDesc, fold u v = fold u ava.want := by
  simp only [evaluate, anyValue_eq_true_iff, beq_iff_eq, AttributeValueAssertion.want]

/-- Compare and the equality filter agree on an entry exactly if, whenever one
of its values respells the assertion, one equals it but for ASCII case. -/
theorem Searcher.handleCompare_iff_equalityMatch (srv : Searcher) (tables : CaseTables)
    {store : Store} {req : CompareRequest} {dn : Dn} {entry : Entry}
    (hdn : Dn.parse req.entry = .ok dn) (hown : ¬ srv.referrals.Foreign dn)
    (hentry : store.getEntry dn = .ok (some entry)) :
    ((srv.handleCompare store req).resultCode = .compareTrue ↔
        Filter.evaluate (.ofTables tables) entry (.equalityMatch req.ava) = .true) ↔
      ∀ v ∈ entry.valuesOf req.ava.attributeDesc,
        Filter.Respells (.ofTables tables) v req.ava.want →
          ∃ w ∈ entry.valuesOf req.ava.attributeDesc, w.eqIgnoreAsciiCase req.ava.want = true := by
  have hcode : (srv.handleCompare store req).resultCode = .compareTrue ↔
      req.matched entry = true := by
    rw [handleCompare, hdn]
    simp only [Referrals.proactiveReferral_eq_none.mpr hown, hentry]
    cases req.matched entry <;> simp [LdapResult.new]
  rw [hcode, CompareRequest.matched_iff, Filter.evaluate_equalityMatch]
  constructor
  · intro hiff v hv hresp
    exact hiff.mpr ⟨v, hv, hresp.1⟩
  · intro hresp
    constructor
    · rintro ⟨v, hv, heq⟩
      exact ⟨v, hv, Filter.fold_congr tables heq⟩
    · rintro ⟨v, hv, hfold⟩
      cases heq : v.eqIgnoreAsciiCase req.ava.want with
      | true => exact ⟨v, hv, heq⟩
      | false => exact hresp v hv ⟨hfold, heq⟩

section Samples

open Tracked (corp corpPerson)

def named (name : Str) : Store :=
  ⟨.singleton corp, fun _ => { Cluster.empty with
    kv := OrderedMap.empty.insert (Key.entryKey corp.id (corpPerson "Alice"))
      (.entry (Entry.new.set "displayName" [name])) }⟩

def isNamed (name : Str) : CompareRequest := ⟨"cn=Alice,dc=corp", "displayName", name.toUtf8⟩

def plainSearcher : Searcher := ⟨.ofTables Filter.greek, id, ⟨none, [], none⟩, false⟩

theorem handleCompare_case :
    (plainSearcher.handleCompare (named "Alice B") (isNamed "ALICE b")).resultCode = .compareTrue ∧
      Filter.evaluate (.ofTables Filter.greek) (Entry.new.set "displayName" ["Alice B"])
        (.equalityMatch (isNamed "ALICE b").ava) = .true := by
  have hcompare : (plainSearcher.handleCompare (named "Alice B") (isNamed "ALICE b")).resultCode =
      .compareTrue := by decide +kernel
  have hdn : Dn.parse (isNamed "ALICE b").entry = .ok (corpPerson "Alice") := rfl
  have hown : ¬ plainSearcher.referrals.Foreign (corpPerson "Alice") :=
    Referrals.proactiveReferral_eq_none.mp rfl
  have hentry : (named "Alice B").getEntry (corpPerson "Alice") =
      .ok (some (Entry.new.set "displayName" ["Alice B"])) := rfl
  have hiff := (plainSearcher.handleCompare_iff_equalityMatch Filter.greek hdn hown hentry).mpr ?_
  · exact ⟨hcompare, hiff.mp hcompare⟩
  · intro v _ _
    exact ⟨"Alice B", by decide, by decide⟩

/-- A run of blanks in the stored value: the filter matches, compare does not. -/
theorem handleCompare_blanks :
    (named "Alice  B").getEntry (corpPerson "Alice") =
        .ok (some (Entry.new.set "displayName" ["Alice  B"])) ∧
      (plainSearcher.handleCompare (named "Alice  B") (isNamed "Alice B")).resultCode =
        .compareFalse ∧
      Filter.evaluate (.ofTables Filter.greek) (Entry.new.set "displayName" ["Alice  B"])
        (.equalityMatch (isNamed "Alice B").ava) = .true := by
  refine ⟨rfl, ?_, ?_⟩ <;> decide +kernel

end Samples

end IronDirectory.Ldap
