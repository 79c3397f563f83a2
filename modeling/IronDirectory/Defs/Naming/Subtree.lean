import IronDirectory.Defs.Naming.KeyText

namespace IronDirectory.Naming

open Base

namespace Dn

theorem Same.length_rdns {d e : Dn} (h : d.Same e) : d.rdns.length = e.rdns.length := by
  simpa [norm] using congrArg List.length h

theorem Same.rdns_ne_nil {d e : Dn} (h : d.Same e) : d.rdns ≠ [] ↔ e.rdns ≠ [] := by
  rw [← List.length_pos_iff, ← List.length_pos_iff, h.length_rdns]

theorem isEmpty_congr {d e : Dn} (h : d.Same e) : d.isEmpty = e.isEmpty := by
  rw [isEmpty, isEmpty, Bool.eq_iff_iff, List.isEmpty_iff_length_eq_zero,
    List.isEmpty_iff_length_eq_zero, h.length_rdns]

theorem same_of_isEmpty {d e : Dn} (hd : d.isEmpty = true) (he : e.isEmpty = true) :
    d.Same e := by
  rw [isEmpty, List.isEmpty_iff] at hd he
  rw [Same, norm, norm, hd, he]

theorem isWithin_iff {d b : Dn} : d.isWithin b = true ↔
    ∃ lower upper, d.rdns = lower ++ upper ∧ Same ⟨upper⟩ b := by
  constructor
  · intro h
    rw [isWithin] at h
    split at h
    · exact absurd h (by decide)
    · refine ⟨d.rdns.take (d.depth - b.depth), d.rdns.drop (d.depth - b.depth),
        (List.take_append_drop _ _).symm, ?_⟩
      rw [Same, norm, List.map_drop]
      exact beq_iff_eq.mp h
  · rintro ⟨lower, upper, h, hsame⟩
    have hlen : upper.length = b.depth := hsame.length_rdns
    have hd : d.depth = lower.length + b.depth := by
      rw [depth, h, List.length_append, hlen]
    rw [isWithin, if_neg (by omega), beq_iff_eq, hd, Nat.add_sub_cancel, norm, ← List.map_drop, h,
      List.drop_left]
    exact hsame

theorem isStrictDescendantOf_iff {d b : Dn} : d.isStrictDescendantOf b = true ↔
    ∃ lower upper, d.rdns = lower ++ upper ∧ lower ≠ [] ∧ Same ⟨upper⟩ b := by
  rw [isStrictDescendantOf, Bool.and_eq_true, decide_eq_true_eq, isWithin_iff]
  have hlen : ∀ {lower upper}, d.rdns = lower ++ upper → Same ⟨upper⟩ b →
      (d.depth > b.depth ↔ lower ≠ []) := by
    intro lower upper h hsame
    have hu : upper.length = b.depth := hsame.length_rdns
    rw [depth, h, List.length_append, hu, ← List.length_pos_iff]
    omega
  constructor
  · rintro ⟨hlt, lower, upper, h, hsame⟩
    exact ⟨lower, upper, h, (hlen h hsame).mp hlt, hsame⟩
  · rintro ⟨lower, upper, h, hne, hsame⟩
    exact ⟨(hlen h hsame).mpr hne, lower, upper, h, hsame⟩

def weight (rdns : List Rdn) : Nat := (rdns.map fun r => r.normalizedString.length + 1).sum

@[simp] theorem weight_cons (r : Rdn) (rdns : List Rdn) :
    weight (r :: rdns) = r.normalizedString.length + 1 + weight rdns := rfl

@[simp] theorem weight_append (rdns rdns' : List Rdn) :
    weight (rdns ++ rdns') = weight rdns + weight rdns' := by simp [weight]

theorem length_join_components (rdns : List Rdn) (us : List Str)
    (h : reversedComponents ⟨rdns⟩ ++ us ≠ []) :
    (Str.join '/' (reversedComponents ⟨rdns⟩ ++ us)).length + 1 =
      weight rdns + (us.map fun u => u.length + 1).sum := by
  rw [Str.length_join '/' h, List.map_append, List.sum_append, reversedComponents, List.map_reverse,
    List.map_reverse, List.sum_reverse, List.map_map]
  rfl

theorem length_path_add_one {rdns : List Rdn} (h : rdns ≠ []) :
    (path ⟨rdns⟩).length + 1 = weight rdns := by
  have := length_join_components rdns [] (by simpa [reversedComponents] using h)
  simpa [path] using this

theorem path_isPrefix_iff {t : Str} {c : Dn} : t ++ ['/'] <+: c.path ↔
    (∃ lower upper, c.rdns = lower ++ upper ∧ lower ≠ [] ∧ upper ≠ [] ∧ path ⟨upper⟩ = t) ∨
    ∃ lower r upper u v, c.rdns = lower ++ r :: upper ∧ r.normalizedString = u ++ '/' :: v ∧
      Str.join '/' (reversedComponents ⟨upper⟩ ++ [u]) = t := by
  rw [path, Str.isPrefix_join_iff, reversedComponents]
  constructor
  · rintro (⟨qs, rs, h, hqs, hrs, hj⟩ | ⟨qs, u, v, rs, h, hj⟩)
    · obtain ⟨us, ls, hrev, rfl, rfl⟩ := List.map_eq_append_iff.mp h
      refine .inl ⟨ls.reverse, us.reverse, ?_, by simpa using hrs, by simpa using hqs, ?_⟩
      · rw [← List.reverse_append, ← hrev, List.reverse_reverse]
      · simpa [path, reversedComponents] using hj
    · obtain ⟨us, rest, hrev, rfl, hrest⟩ := List.map_eq_append_iff.mp h
      obtain ⟨r, ls, rfl, hr, rfl⟩ := List.map_eq_cons_iff.mp hrest
      refine .inr ⟨ls.reverse, r, us.reverse, u, v, ?_, hr, ?_⟩
      · rw [← List.reverse_reverse c.rdns, hrev]
        simp
      · simpa [path, reversedComponents] using hj
  · rintro (⟨lower, upper, h, hl, hu, hj⟩ | ⟨lower, r, upper, u, v, h, hr, hj⟩)
    · refine .inl ⟨upper.reverse.map Rdn.normalizedString, lower.reverse.map Rdn.normalizedString,
        ?_, by simpa using hu, by simpa using hl, hj⟩
      rw [h, List.reverse_append, List.map_append]
    · refine .inr ⟨upper.reverse.map Rdn.normalizedString, u, v,
        lower.reverse.map Rdn.normalizedString, ?_, hj⟩
      rw [h, ← hr]
      simp

theorem path_ne_nil {rdns : List Rdn} (hw : ∀ r ∈ rdns, r.Wf) (hne : rdns ≠ []) :
    path ⟨rdns⟩ ≠ [] := by
  intro hpath
  obtain ⟨r, rdns, rfl⟩ := List.exists_cons_of_ne_nil hne
  have hlength := length_path_add_one hne
  have hpos := List.length_pos_iff.mpr (hw r List.mem_cons_self).normalizedString_ne_nil
  rw [hpath, weight_cons, List.length_nil] at hlength
  omega

theorem eq_of_path_eq {lower lower' upper upper' : List Rdn} (hu : upper ≠ []) (hu' : upper' ≠ [])
    (h : lower ++ upper = lower' ++ upper') (hp : path ⟨upper⟩ = path ⟨upper'⟩) :
    upper = upper' := by
  have hl := congrArg List.length hp
  have h₁ := length_path_add_one hu
  have h₂ := length_path_add_one hu'
  obtain ⟨w, -, rfl⟩ | ⟨w, -, rfl⟩ := List.append_eq_append_iff.mp h
  all_goals
    cases w with
    | nil => rfl
    | cons r w =>
      simp only [List.cons_append, weight_cons, weight_append] at h₁ h₂ hl
      omega

theorem path_ne_inside {lower lower' upper upper' : List Rdn} {r : Rdn} {u v : Str}
    (hu' : upper' ≠ []) (h : lower ++ r :: upper = lower' ++ upper')
    (hr : r.normalizedString = u ++ '/' :: v) :
    Str.join '/' (reversedComponents ⟨upper⟩ ++ [u]) ≠ path ⟨upper'⟩ := by
  intro hp
  have hl := congrArg List.length hp
  have h₁ := length_join_components upper [u] (by simp)
  have h₂ := length_path_add_one hu'
  have hlr := congrArg List.length hr
  simp only [List.length_append, List.length_cons, List.map_cons, List.map_nil, List.sum_cons,
    List.sum_nil] at hlr h₁
  obtain ⟨w, -, hw⟩ | ⟨w, -, hw⟩ := List.append_eq_append_iff.mp h
  · cases w with
    | nil =>
      obtain rfl : r :: upper = upper' := by simpa using hw
      rw [weight_cons] at h₂
      omega
    | cons q w =>
      obtain ⟨rfl, rfl⟩ := List.cons.inj hw
      simp only [List.append_eq, weight_append] at h₁ hl
      omega
  · subst hw
    rw [weight_append, weight_cons] at h₂
    omega

end Dn

namespace Key

/-- The text of `c`'s path meets that of `b` only where `c` has `b` as an
ancestor. -/
structure Aligned (b c : Dn) : Prop where
  ancestor : ∀ lower upper, c.rdns = lower ++ upper → lower ≠ [] → upper ≠ [] →
    Dn.path ⟨upper⟩ = b.path → Dn.Same ⟨upper⟩ b
  inside : ∀ lower r upper u v, c.rdns = lower ++ r :: upper →
    r.normalizedString = u ++ '/' :: v →
    Str.join '/' (Dn.reversedComponents ⟨upper⟩ ++ [u]) ≠ b.path

theorem subtreePrefix_isPrefix_entryKey {pid : PartitionId} {b c : Dn} :
    subtreePrefix pid b <+: entryKey pid c ↔ b.path ++ ['/'] <+: c.path := by
  rw [subtreePrefix, entryKey_eq, entryKey_eq, List.append_assoc, List.prefix_append_right_inj]

theorem isPrefix_of_isStrictDescendantOf {b c : Dn} (hb : b.rdns ≠ [])
    (h : c.isStrictDescendantOf b = true) : b.path ++ ['/'] <+: c.path := by
  obtain ⟨lower, upper, hc, hl, hsame⟩ := Dn.isStrictDescendantOf_iff.mp h
  exact Dn.path_isPrefix_iff.mpr
    (.inl ⟨lower, upper, hc, hl, hsame.rdns_ne_nil.mpr hb, path_congr hsame⟩)

/-- The keys below a base are those of its strict descendants exactly for the
names whose paths are aligned with the base. -/
theorem subtreePrefix_iff_descendant (pid : PartitionId) {b c : Dn} (hne : b.isEmpty = false) :
    ((subtreePrefix pid b).isPrefixOf (entryKey pid c) = true ↔
      c.isStrictDescendantOf b = true) ↔ Aligned b c := by
  have hne : b.rdns ≠ [] := by simpa [Dn.isEmpty] using hne
  rw [List.isPrefixOf_iff_prefix, subtreePrefix_isPrefix_entryKey]
  constructor
  · intro h
    constructor
    · intro lower upper hc hl hu hp
      have hpre := Dn.path_isPrefix_iff.mpr (.inl ⟨lower, upper, hc, hl, hu, hp⟩)
      obtain ⟨lower', upper', hc', hl', hsame⟩ := Dn.isStrictDescendantOf_iff.mp (h.mp hpre)
      have hu' := hsame.rdns_ne_nil.mpr hne
      rwa [Dn.eq_of_path_eq hu hu' (hc.symm.trans hc') (hp.trans (path_congr hsame).symm)]
    · intro lower r upper u v hc hr hp
      have hpre := Dn.path_isPrefix_iff.mpr (.inr ⟨lower, r, upper, u, v, hc, hr, hp⟩)
      obtain ⟨lower', upper', hc', hl', hsame⟩ := Dn.isStrictDescendantOf_iff.mp (h.mp hpre)
      exact Dn.path_ne_inside (hsame.rdns_ne_nil.mpr hne) (hc.symm.trans hc') hr
        (hp.trans (path_congr hsame).symm)
  · intro h
    refine ⟨?_, isPrefix_of_isStrictDescendantOf hne⟩
    intro hpre
    obtain ⟨lower, upper, hc, hl, hu, hp⟩ | ⟨lower, r, upper, u, v, hc, hr, hp⟩ :=
      Dn.path_isPrefix_iff.mp hpre
    · exact Dn.isStrictDescendantOf_iff.mpr ⟨lower, upper, hc, hl, h.ancestor _ _ hc hl hu hp⟩
    · exact absurd hp (h.inside _ _ _ _ _ hc hr)

section Samples

def loId : PartitionId := ⟨"lo", by decide⟩

def lo : Dn := ⟨[⟨[⟨"dc", "lo"⟩]⟩]⟩

def ada : Dn := ⟨[⟨[⟨"cn", "Ada"⟩]⟩, ⟨[⟨"dc", "LO"⟩]⟩]⟩

def slashed : Dn := ⟨[⟨[⟨"dc", "lo/x"⟩]⟩]⟩

theorem aligned_ada_not_slashed : lo.isEmpty = false ∧ Aligned lo ada ∧ ¬ Aligned lo slashed :=
  ⟨rfl, (subtreePrefix_iff_descendant loId rfl).mp (by decide +kernel),
    fun h => absurd ((subtreePrefix_iff_descendant loId rfl).mpr h) (by decide +kernel)⟩

/-- One domain component with a slash in its value lies, by its key, below a
name it has nothing to do with. -/
theorem subtreePrefix_of_stranger :
    Dn.parse "dc=lo" = .ok lo ∧ Dn.parse "dc=lo/x" = .ok slashed ∧ lo.isEmpty = false ∧
      (subtreePrefix loId lo).isPrefixOf (entryKey loId slashed) = true ∧
      slashed.isStrictDescendantOf lo = false :=
  ⟨rfl, rfl, rfl, by decide +kernel, rfl⟩

end Samples

end Key

theorem Dn.Legible.path_inj {d e : Dn} (hd : d.Wf) (he : e.Wf) (hld : d.Legible)
    (hle : e.Legible) (h : d.path = e.path) : d.Same e := by
  obtain ⟨d', hpd, hd'⟩ := hld.reads_back hd
  obtain ⟨e', hpe, he'⟩ := hle.reads_back he
  rw [h, hpe] at hpd
  obtain rfl : e' = d' := by simpa using hpd
  exact hd'.symm.trans he'

theorem Dn.Legible.ancestor {lower upper : List Rdn} (h : Dn.Legible ⟨lower ++ upper⟩) :
    Dn.Legible ⟨upper⟩ := by
  have hn : Dn.norm ⟨lower ++ upper⟩ = Dn.norm ⟨lower⟩ ++ Dn.norm ⟨upper⟩ := List.map_append
  have hsub : ∀ a ∈ (Dn.norm ⟨upper⟩).flatten.dropLast,
      a ∈ (Dn.norm ⟨lower ++ upper⟩).flatten.dropLast := by
    intro a ha
    have hne : (Dn.norm ⟨upper⟩).flatten ≠ [] := by
      rintro h
      simp [h] at ha
    rw [hn, List.flatten_append, List.dropLast_append_of_ne_nil hne]
    exact List.mem_append_right _ ha
  constructor
  · intro a ha
    apply h.avas
    rw [hn, List.flatten_append]
    exact List.mem_append_right _ ha
  · exact fun a ha => h.inner a (hsub a ha)

theorem Dn.Legible.aligned {b c : Dn} (hb : b.Wf) (hc : c.Wf) (hlb : b.Legible)
    (hlc : c.Legible) : Key.Aligned b c where
  ancestor := by
    intro lower upper h _ _ hp
    obtain ⟨rdns⟩ := c
    obtain rfl : rdns = lower ++ upper := h
    exact hlc.ancestor.path_inj (fun r hr => hc r (List.mem_append_right _ hr)) hb hlb hp
  inside := by
    intro lower r upper u v h hr
    have hmem : r ∈ c.rdns := by
      rw [h]
      simp
    refine absurd ?_ (Rdn.slash_not_mem (hlc.of_mem hmem))
    rw [hr]
    simp

end IronDirectory.Naming
