import Mathlib.Data.List.Forall2
import Mathlib.Data.List.Sort
import Mathlib.Order.Lattice

/-! Finite maps kept as strictly sorted association lists.  Iteration follows
the key order, which is what ordered maps and range reads of a key-value store
both promise. -/

universe u v

namespace IronDirectory.Base

structure OrderedMap (K : Type u) (V : Type v) [LinearOrder K] where
  entries : List (K × V)
  sorted : entries.Pairwise fun a b => a.1 < b.1

namespace OrderedMap

variable {K : Type u} {V : Type v} [LinearOrder K]

def empty : OrderedMap K V := ⟨[], .nil⟩

instance : Inhabited (OrderedMap K V) := ⟨empty⟩

def find? (m : OrderedMap K V) (k : K) : Option V :=
  (m.entries.find? fun e => e.1 == k).map Prod.snd

def insertList (k : K) (v : V) : List (K × V) → List (K × V)
  | [] => [(k, v)]
  | e :: es =>
    if k < e.1 then (k, v) :: e :: es
    else if k = e.1 then (k, v) :: es
    else e :: insertList k v es

theorem mem_insertList {k : K} {v : V} {es : List (K × V)} {e : K × V}
    (h : e ∈ insertList k v es) : e = (k, v) ∨ e ∈ es := by
  induction es with
  | nil => simpa [insertList] using h
  | cons d ds ih =>
    simp only [insertList] at h
    split at h
    · simpa using h
    · split at h
      · rcases List.mem_cons.mp h with rfl | h
        · exact .inl rfl
        · exact .inr (List.mem_cons_of_mem _ h)
      · rcases List.mem_cons.mp h with rfl | h
        · exact .inr List.mem_cons_self
        · exact (ih h).imp id (List.mem_cons_of_mem _)

theorem insertList_sorted (k : K) (v : V) {es : List (K × V)}
    (h : es.Pairwise fun a b => a.1 < b.1) :
    (insertList k v es).Pairwise fun a b => a.1 < b.1 := by
  induction es with
  | nil => simp [insertList]
  | cons d ds ih =>
    obtain ⟨hd, hds⟩ := List.pairwise_cons.mp h
    simp only [insertList]
    split
    case isTrue hlt =>
      refine List.pairwise_cons.mpr ⟨?_, h⟩
      intro e he
      rcases List.mem_cons.mp he with rfl | he
      · exact hlt
      · exact hlt.trans (hd e he)
    case isFalse hge =>
      split
      case isTrue heq => exact List.pairwise_cons.mpr ⟨fun e he => heq ▸ hd e he, hds⟩
      case isFalse hne =>
        refine List.pairwise_cons.mpr ⟨?_, ih hds⟩
        intro e he
        rcases mem_insertList he with rfl | he
        · exact lt_of_le_of_ne (not_lt.mp hge) (Ne.symm hne)
        · exact hd e he

def insert (m : OrderedMap K V) (k : K) (v : V) : OrderedMap K V :=
  ⟨insertList k v m.entries, insertList_sorted k v m.sorted⟩

def erase (m : OrderedMap K V) (k : K) : OrderedMap K V :=
  ⟨m.entries.filter fun e => e.1 != k, m.sorted.filter _⟩

def scan (m : OrderedMap K V) (p : K → Bool) : List (K × V) :=
  m.entries.filter fun e => p e.1

def values (m : OrderedMap K V) : List V := m.entries.map Prod.snd

theorem mem_entries_iff {m : OrderedMap K V} {k : K} {v : V} :
    (k, v) ∈ m.entries ↔ m.find? k = some v := by
  obtain ⟨es, hs⟩ := m
  simp only [find?]
  induction es with
  | nil => simp
  | cons e es ih =>
    obtain ⟨he, hes⟩ := List.pairwise_cons.mp hs
    obtain ⟨a, b⟩ := e
    by_cases hk : a = k
    · subst hk
      have hnot : ∀ w, (a, w) ∉ es := fun w hw => lt_irrefl a (he (a, w) hw)
      simp [hnot, eq_comm]
    · have hk' : (a == k) = false := by simpa using hk
      simp [hk', ih hes, Ne.symm hk]

theorem find?_insert [DecidableEq K] (m : OrderedMap K V) (k k' : K) (v : V) :
    (m.insert k v).find? k' = if k' = k then some v else m.find? k' := by
  obtain ⟨es, hs⟩ := m
  simp only [find?, insert]
  induction es with
  | nil =>
    by_cases h : k' = k
    · simp [insertList, h]
    · simp [insertList, h, Ne.symm h]
  | cons e es ih =>
    obtain ⟨he, hes⟩ := List.pairwise_cons.mp hs
    simp only [insertList]
    split
    case isTrue hlt =>
      by_cases h : k' = k
      · simp [h]
      · simp [h, Ne.symm h]
    case isFalse hge =>
      split
      case isTrue heq =>
        by_cases h : k' = k
        · simp [h]
        · have : ¬ e.1 = k' := fun h' => h (h'.symm.trans heq.symm)
          simp [h, Ne.symm h, this]
      case isFalse hne =>
        by_cases h : e.1 = k'
        · have : ¬ k' = k := fun h' => hne (h'.symm.trans h.symm)
          simp [h, this]
        · simpa [h] using ih hes

theorem find?_erase [DecidableEq K] (m : OrderedMap K V) (k k' : K) :
    (m.erase k).find? k' = if k' = k then none else m.find? k' := by
  by_cases h : k' = k
  · subst h
    simp only [find?, erase, if_true, Option.map_eq_none_iff, List.find?_eq_none]
    intro e he
    simpa using (List.mem_filter.mp he).2
  · rw [if_neg h]
    apply Option.ext
    intro v
    rw [← mem_entries_iff, ← mem_entries_iff]
    simp [erase, h]

theorem mem_scan_iff {m : OrderedMap K V} {p : K → Bool} {k : K} {v : V} :
    (k, v) ∈ m.scan p ↔ m.find? k = some v ∧ p k = true := by
  simp [scan, mem_entries_iff]

theorem scan_sorted (m : OrderedMap K V) (p : K → Bool) :
    (m.scan p).Pairwise fun a b => a.1 < b.1 :=
  m.sorted.filter _

theorem eq_of_sorted {es es' : List (K × V)} (hs : es.Pairwise fun a b => a.1 < b.1)
    (hs' : es'.Pairwise fun a b => a.1 < b.1) (h : ∀ e, e ∈ es ↔ e ∈ es') : es = es' := by
  have : Std.Irrefl fun a b : K × V => a.1 < b.1 := ⟨fun a => lt_irrefl a.1⟩
  have : Std.Antisymm fun a b : K × V => a.1 < b.1 := ⟨fun _ _ h h' => absurd h (lt_asymm h')⟩
  exact hs.eq_of_mem_iff hs' h

theorem ext_find? {m m' : OrderedMap K V} (h : ∀ k, m.find? k = m'.find? k) : m = m' := by
  have hmem : ∀ e, e ∈ m.entries ↔ e ∈ m'.entries := by
    rintro ⟨k, v⟩
    rw [mem_entries_iff, mem_entries_iff, h]
  obtain ⟨es, hs⟩ := m
  obtain ⟨es', hs'⟩ := m'
  obtain rfl : es = es' := eq_of_sorted hs hs' hmem
  rfl

theorem scan_eq_filter {m m' : OrderedMap K V} {p d : K → Bool}
    (h : ∀ k, p k = true → m'.find? k = if d k then none else m.find? k) :
    m'.scan p = (m.scan p).filter fun e => !d e.1 := by
  refine eq_of_sorted (m'.scan_sorted p) ((m.scan_sorted p).filter _) ?_
  rintro ⟨k, v⟩
  rw [List.mem_filter, mem_scan_iff, mem_scan_iff]
  by_cases hp : p k = true
  · rw [h k hp]
    cases d k with
    | false => simp
    | true => simp
  · simp [hp]

theorem length_insert_le (m : OrderedMap K V) (k : K) (v : V) :
    (m.insert k v).entries.length ≤ m.entries.length + 1 := by
  obtain ⟨es, hs⟩ := m
  change (insertList k v es).length ≤ es.length + 1
  induction es with
  | nil => simp [insertList]
  | cons e es ih =>
    rw [insertList]
    split
    · simp
    · split
      · simp
      · simpa using ih (List.pairwise_cons.mp hs).2

def Alike (R : K → V → V → Prop) (m m' : OrderedMap K V) : Prop :=
  List.Forall₂ (fun a b => a.1 = b.1 ∧ R a.1 a.2 b.2) m.entries m'.entries

section Alike

variable {R : K → V → V → Prop} {m m' : OrderedMap K V}

theorem Alike.keys (h : Alike R m m') : m.entries.map Prod.fst = m'.entries.map Prod.fst := by
  rw [← List.forall₂_eq_eq_eq, List.forall₂_map_left_iff, List.forall₂_map_right_iff]
  exact h.imp fun _ _ hab => hab.1

theorem Alike.find? (h : Alike R m m') (k : K) : Option.Rel (R k) (m.find? k) (m'.find? k) := by
  obtain ⟨es, hs⟩ := m
  obtain ⟨es', hs'⟩ := m'
  simp only [OrderedMap.find?]
  change List.Forall₂ _ es es' at h
  induction h with
  | nil => exact .none
  | @cons a b es es' hab _ ih =>
    obtain ⟨hkey, hR⟩ := hab
    by_cases hk : a.1 = k
    · have hk' : b.1 = k := hkey ▸ hk
      simp only [List.find?_cons, hk, hk', beq_self_eq_true, Option.map_some]
      exact .some (hk ▸ hR)
    · have hk' : (a.1 == k) = false := by simpa using hk
      have hk'' : (b.1 == k) = false := hkey ▸ hk'
      simp only [List.find?_cons, hk', hk'']
      exact ih (List.pairwise_cons.mp hs).2 (List.pairwise_cons.mp hs').2

theorem Alike.scan (h : Alike R m m') (p : K → Bool) :
    List.Forall₂ (fun a b => a.1 = b.1 ∧ R a.1 a.2 b.2) (m.scan p) (m'.scan p) :=
  List.rel_filter (fun _ _ hab => by simp only [hab.1]) h

theorem alike_insert (hrefl : ∀ k v, R k v v) {k : K} {v w : V} (h : m.find? k = some v)
    (hR : R k v w) : Alike R m (m.insert k w) := by
  obtain ⟨es, hs⟩ := m
  rw [← mem_entries_iff] at h
  change List.Forall₂ _ es (insertList k w es)
  induction es with
  | nil => cases h
  | cons a es ih =>
    obtain ⟨ha, hes⟩ := List.pairwise_cons.mp hs
    have hsame : List.Forall₂ (fun a b : K × V => a.1 = b.1 ∧ R a.1 a.2 b.2) es es :=
      List.forall₂_same.mpr fun a _ => ⟨rfl, hrefl a.1 a.2⟩
    obtain rfl | h := List.mem_cons.mp h
    · rw [insertList, if_neg (lt_irrefl k), if_pos rfl]
      exact .cons ⟨rfl, hR⟩ hsame
    · have hlt := ha _ h
      rw [insertList, if_neg (lt_asymm hlt), if_neg hlt.ne']
      exact .cons ⟨rfl, hrefl _ _⟩ (ih hes h)

end Alike

end OrderedMap

end IronDirectory.Base
