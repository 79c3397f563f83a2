import IronDirectory.Defs.Naming.Subtree

namespace IronDirectory.Naming

open Base

namespace Dn

theorem length_norm (d : Dn) : d.norm.length = d.depth := List.length_map _

theorem isWithin_iff_suffix {d b : Dn} : d.isWithin b = true ↔ b.norm <:+ d.norm := by
  rw [isWithin_iff]
  constructor
  · rintro ⟨lower, upper, h, hsame⟩
    refine ⟨lower.map Rdn.norm, ?_⟩
    rw [← hsame, norm, norm, h, List.map_append]
  · rintro ⟨t, ht⟩
    obtain ⟨lower, upper, h, -, hupper⟩ := List.map_eq_append_iff.mp ht.symm
    exact ⟨lower, upper, h, hupper⟩

theorem isWithin_congr {d e b : Dn} (h : d.Same e) : d.isWithin b = e.isWithin b := by
  rw [Bool.eq_iff_iff, isWithin_iff_suffix, isWithin_iff_suffix, h]

theorem isWithin_trans {d e b : Dn} (hde : d.isWithin e = true) (heb : e.isWithin b = true) :
    d.isWithin b = true := by
  rw [isWithin_iff_suffix] at hde heb ⊢
  exact heb.trans hde

theorem depth_le_of_isWithin {d b : Dn} (h : d.isWithin b = true) : b.depth ≤ d.depth := by
  rw [← length_norm, ← length_norm]
  exact (isWithin_iff_suffix.mp h).length_le

theorem isWithin_of_depth_le {d b c : Dn} (hb : d.isWithin b = true) (hc : d.isWithin c = true)
    (hle : b.depth ≤ c.depth) : c.isWithin b = true := by
  rw [isWithin_iff_suffix] at hb hc ⊢
  exact List.suffix_of_suffix_length_le hb hc (by rwa [length_norm, length_norm])

theorem same_of_isWithin {b c : Dn} (h : c.isWithin b = true) (hle : c.depth ≤ b.depth) :
    b.Same c := by
  refine (isWithin_iff_suffix.mp h).eq_of_length_le ?_
  rwa [length_norm, length_norm]

end Dn

namespace PartitionRegistry

section MaxByKey

variable {α : Type} {key : α → Nat} {xs : List α} {x : α}

theorem maxByKey_concat (key : α → Nat) (xs : List α) (x : α) :
    maxByKey key (xs ++ [x]) =
      match maxByKey key xs with
      | none => some x
      | some b => if key x < key b then some b else some x := by
  rw [maxByKey, List.foldl_append]
  rfl

theorem maxByKey_eq_none : maxByKey key xs = none ↔ xs = [] := by
  cases xs using List.reverseRecOn with
  | nil => simp [maxByKey]
  | append_singleton xs x =>
    rw [maxByKey_concat]
    split
    · simp
    · split <;> simp

theorem le_of_maxByKey (h : maxByKey key xs = some x) : ∀ y ∈ xs, key y ≤ key x := by
  induction xs using List.reverseRecOn generalizing x with
  | nil => simp
  | append_singleton xs z ih =>
    rw [maxByKey_concat] at h
    intro y hy
    rw [List.mem_append, List.mem_singleton] at hy
    cases hmax : maxByKey key xs with
    | none =>
      rw [maxByKey_eq_none] at hmax
      subst hmax
      obtain rfl : z = x := by simpa [maxByKey] using h
      obtain hy | rfl := hy
      · cases hy
      · exact le_rfl
    | some b =>
      rw [hmax] at h
      have hb := ih hmax
      simp only at h
      split at h
      · next hlt =>
        cases h
        obtain hy | rfl := hy
        · exact hb y hy
        · exact hlt.le
      · next hge =>
        cases h
        obtain hy | rfl := hy
        · exact (hb y hy).trans (not_lt.mp hge)
        · exact le_rfl

end MaxByKey

variable {reg : PartitionRegistry} {d : Dn} {p : Partition}

def DistinctBases (reg : PartitionRegistry) : Prop :=
  ∀ p ∈ reg.iter, ∀ q ∈ reg.iter, p.baseDn.Same q.baseDn → p = q

/-- The context contains the name, and no deeper one does. -/
structure Owns (reg : PartitionRegistry) (d : Dn) (p : Partition) : Prop where
  mem : p ∈ reg.iter
  within : d.isWithin p.baseDn = true
  deepest : ∀ q ∈ reg.iter, d.isWithin q.baseDn = true → q.baseDn.depth ≤ p.baseDn.depth

theorem owns_of_resolve (h : reg.resolve d = some p) : reg.Owns d p where
  mem := (resolve_mem h).1
  within := (resolve_mem h).2
  deepest q hq hwithin := le_of_maxByKey h q (List.mem_filter.mpr ⟨hq, hwithin⟩)

theorem resolve_eq_none : reg.resolve d = none ↔ ∀ p ∈ reg.iter, d.isWithin p.baseDn = false := by
  rw [resolve, maxByKey_eq_none, List.filter_eq_nil_iff]
  simp

theorem Owns.unique (hreg : reg.DistinctBases) {q : Partition} (hp : reg.Owns d p)
    (hq : reg.Owns d q) : p = q := by
  refine hreg p hp.mem q hq.mem (Dn.same_of_isWithin ?_ (hp.deepest q hq.mem hq.within))
  exact Dn.isWithin_of_depth_le hp.within hq.within (hq.deepest p hp.mem hp.within)

theorem resolve_iff_owns (hreg : reg.DistinctBases) :
    reg.resolve d = some p ↔ reg.Owns d p := by
  refine ⟨owns_of_resolve, fun h => ?_⟩
  cases hr : reg.resolve d with
  | none =>
    rw [resolve_eq_none] at hr
    cases (hr p h.mem).symm.trans h.within
  | some q => rw [(owns_of_resolve hr).unique hreg h]

theorem Owns.between {e : Dn} (h : reg.Owns d p) (hde : d.isWithin e = true)
    (hep : e.isWithin p.baseDn = true) : reg.Owns e p where
  mem := h.mem
  within := hep
  deepest q hq hwithin := h.deepest q hq (Dn.isWithin_trans hde hwithin)

theorem owns_iff_subtree (hp : p ∈ reg.iter) :
    reg.Owns d p ↔ d.isWithin p.baseDn = true ∧ ∀ q ∈ reg.iter,
      q.baseDn.isStrictDescendantOf p.baseDn = true → d.isWithin q.baseDn = false := by
  constructor
  · intro h
    refine ⟨h.within, fun q hq hstrict => ?_⟩
    rw [Bool.eq_false_iff]
    intro hwithin
    simp only [Dn.isStrictDescendantOf, Bool.and_eq_true, decide_eq_true_eq] at hstrict
    exact absurd (h.deepest q hq hwithin) (not_le.mpr hstrict.1)
  · rintro ⟨hwithin, hdeeper⟩
    refine ⟨hp, hwithin, fun q hq hq' => not_lt.mp fun hlt => ?_⟩
    have hstrict : q.baseDn.isStrictDescendantOf p.baseDn = true := by
      rw [Dn.isStrictDescendantOf, Dn.isWithin_of_depth_le hwithin hq' hlt.le, Bool.and_true]
      exact decide_eq_true hlt
    cases (hdeeper q hq hstrict).symm.trans hq'

structure Routes (reg : PartitionRegistry) (d : Dn) : Prop where
  some_iff : ∀ p, reg.resolve d = some p ↔ p ∈ reg.iter ∧ d.isWithin p.baseDn = true ∧
    ∀ q ∈ reg.iter, d.isWithin q.baseDn = true → q.baseDn.depth ≤ p.baseDn.depth
  none_iff : reg.resolve d = none ↔ ∀ p ∈ reg.iter, d.isWithin p.baseDn = false
  chain : ∀ p ∈ reg.iter, ∀ q ∈ reg.iter, d.isWithin p.baseDn = true →
    d.isWithin q.baseDn = true →
      p.baseDn.isWithin q.baseDn = true ∨ q.baseDn.isWithin p.baseDn = true
  convex : ∀ p e, reg.resolve d = some p → d.isWithin e = true → e.isWithin p.baseDn = true →
    reg.resolve e = some p
  domain : ∀ p ∈ reg.iter, reg.resolve d = some p ↔ d.isWithin p.baseDn = true ∧
    ∀ q ∈ reg.iter, q.baseDn.isStrictDescendantOf p.baseDn = true → d.isWithin q.baseDn = false

theorem routes_of_distinct (reg : PartitionRegistry) (hreg : reg.DistinctBases) (d : Dn) :
    reg.Routes d where
  some_iff p := by
    rw [resolve_iff_owns hreg]
    exact ⟨fun h => ⟨h.mem, h.within, h.deepest⟩, fun h => ⟨h.1, h.2.1, h.2.2⟩⟩
  none_iff := resolve_eq_none
  chain p _ q _ hp hq := by
    obtain hle | hle := Nat.le_total p.baseDn.depth q.baseDn.depth
    · exact .inr (Dn.isWithin_of_depth_le hp hq hle)
    · exact .inl (Dn.isWithin_of_depth_le hq hp hle)
  convex p e h hde hep := (resolve_iff_owns hreg).mpr ((owns_of_resolve h).between hde hep)
  domain p hp := by rw [resolve_iff_owns hreg, owns_iff_subtree hp]

open Key (lo loId ada)

def loContext : Partition where
  id := loId
  forest := ⟨"lo", loId.valid⟩
  baseDn := lo
  kind := .domain
  realm := none
  cluster := ⟨[], none⟩
  superior := none
  subordinates := []
  ldapUrl := none
  kdcUrl := none
  domainSid := none
  netbiosName := none

def emeaContext : Partition :=
  { loContext with
    id := ⟨"emea", by decide⟩
    baseDn := ⟨⟨[⟨"dc", "emea"⟩]⟩ :: lo.rdns⟩ }

theorem routes_emea :
    ∃ reg, fromPartitions [loContext, emeaContext] = .ok reg ∧ reg.DistinctBases ∧
      reg.resolve ⟨⟨[⟨"cn", "Ada"⟩]⟩ :: emeaContext.baseDn.rdns⟩ = some emeaContext ∧
      reg.resolve ada = some loContext ∧ reg.Routes ada := by
  refine ⟨_, rfl, ?_, by decide +kernel, by decide +kernel, routes_of_distinct _ ?_ ada⟩
  · unfold DistinctBases
    decide +kernel
  · unfold DistinctBases
    decide +kernel

end PartitionRegistry

end IronDirectory.Naming
