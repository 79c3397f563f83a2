import IronDirectory.Defs.Naming.Key

namespace IronDirectory.Naming

open Base

def Dn.path (d : Dn) : Str := Str.join '/' d.reversedComponents

namespace Key

theorem escapeSegment_cons (c : Char) (s : Str) :
    escapeSegment (c :: s) = escapeSegmentChar c ++ escapeSegment s := rfl

theorem slash_not_mem_escapeSegment (s : Str) : '/' ∉ escapeSegment s := by
  induction s with
  | nil => simp [escapeSegment]
  | cons c s ih =>
    rw [escapeSegment_cons, List.mem_append, not_or]
    refine ⟨?_, ih⟩
    simp only [escapeSegmentChar]
    split
    · decide
    · split
      · decide
      · simpa [eq_comm] using ‹¬ c = '/'›

def unescapeSegment : Str → Str
  | '%' :: '2' :: '5' :: cs => '%' :: unescapeSegment cs
  | '%' :: '2' :: 'F' :: cs => '/' :: unescapeSegment cs
  | c :: cs => c :: unescapeSegment cs
  | [] => []

theorem unescapeSegment_cons {c : Char} (h : c ≠ '%') (s : Str) :
    unescapeSegment (c :: s) = c :: unescapeSegment s := by
  rw [unescapeSegment]
  · intro cs hc
    exact absurd hc h
  · intro cs hc
    exact absurd hc h

theorem unescapeSegment_escapeSegment (s : Str) : unescapeSegment (escapeSegment s) = s := by
  induction s with
  | nil => rfl
  | cons c s ih =>
    rw [escapeSegment_cons, escapeSegmentChar]
    split
    case isTrue h =>
      cases h
      exact congrArg ('%' :: ·) ih
    case isFalse h =>
      split
      case isTrue h' =>
        cases h'
        exact congrArg ('/' :: ·) ih
      case isFalse h' =>
        rw [List.singleton_append, unescapeSegment_cons h, ih]

theorem escapeSegment_injective : Function.Injective escapeSegment :=
  Function.LeftInverse.injective unescapeSegment_escapeSegment

theorem reversedComponents_eq (d : Dn) : d.reversedComponents =
    (d.norm.map fun r => Str.join '+' (r.map fun a => a.1 ++ '=' :: a.2)).reverse := by
  have hn : ∀ r : Rdn, r.normalizedString =
      Str.join '+' (r.norm.map fun a => a.1 ++ '=' :: a.2) := by
    intro r
    simp [Rdn.normalizedString, Rdn.norm, Ava.norm, Function.comp_def]
  simp [Dn.reversedComponents, Dn.norm, hn, Function.comp_def]

theorem reversedComponents_congr {d e : Dn} (h : d.Same e) :
    d.reversedComponents = e.reversedComponents := by
  rw [reversedComponents_eq, reversedComponents_eq, h]

theorem path_congr {d e : Dn} (h : d.Same e) : d.path = e.path := by
  rw [Dn.path, Dn.path, reversedComponents_congr h]

theorem entryKey_eq (pid : PartitionId) (d : Dn) : entryKey pid d = treeRoot pid ++ d.path := rfl

theorem entryKey_congr {pid : PartitionId} {d e : Dn} (h : d.Same e) :
    entryKey pid d = entryKey pid e := by
  rw [entryKey_eq, entryKey_eq, path_congr h]

theorem partitionRoot_segments (pid : PartitionId) (s : Str) :
    partitionRoot pid ++ s = "/iron/" ++ (pid.str ++ '/' :: s) := by
  simp [partitionRoot]

theorem entryKey_segments (pid : PartitionId) (dn : Dn) :
    entryKey pid dn =
      partitionRoot pid ++ ("tree" ++ '/' :: Str.join '/' dn.reversedComponents) := by
  simp [entryKey, treeRoot, partitionRoot, Str.ofString]

theorem indexRoot_eq (pid : PartitionId) : indexRoot pid = partitionRoot pid ++ "idx/" := by
  simp [indexRoot, partitionRoot, Str.ofString]

theorem indexPrefix_segments (pid : PartitionId) (attr value : Str) :
    indexPrefix pid attr value = partitionRoot pid ++
      ("idx" ++ '/' :: (escapeSegment attr.asciiLower ++ '/' :: (escapeSegment value ++ ['/']))) := by
  simp [indexPrefix, partitionRoot, Str.ofString]

theorem indexKey_segments (pid : PartitionId) (attr value : Str) (dn : Dn) :
    indexKey pid attr value dn = partitionRoot pid ++
      ("idx" ++ '/' :: (escapeSegment attr.asciiLower ++ '/' ::
        (escapeSegment value ++ '/' :: escapeSegment dn.display))) := by
  simp [indexKey, partitionRoot, Str.ofString]

theorem partitionRoot_append_inj {p q : PartitionId} {s t : Str} :
    partitionRoot p ++ s = partitionRoot q ++ t ↔ p = q ∧ s = t := by
  rw [partitionRoot_segments, partitionRoot_segments, List.append_cancel_left_eq,
    Str.append_sep_inj p.slash_not_mem q.slash_not_mem]
  constructor
  · intro h
    exact ⟨PartitionId.ext_str h.1, h.2⟩
  · intro h
    exact ⟨congrArg _ h.1, h.2⟩

theorem entryKey_inj {p q : PartitionId} {d e : Dn} :
    entryKey p d = entryKey q e ↔ p = q ∧ d.path = e.path := by
  rw [entryKey_segments, entryKey_segments, partitionRoot_append_inj]
  simp [Dn.path]

theorem partitionRoot_append_isPrefix {p q : PartitionId} {s t : Str} :
    partitionRoot p ++ s <+: partitionRoot q ++ t ↔ p = q ∧ s <+: t := by
  rw [partitionRoot_segments, partitionRoot_segments, List.prefix_append_right_inj,
    Str.append_sep_isPrefix p.slash_not_mem q.slash_not_mem]
  constructor
  · intro h
    exact ⟨PartitionId.ext_str h.1, h.2⟩
  · intro h
    exact ⟨congrArg _ h.1, h.2⟩

theorem partitionRoot_isPrefix_append {p q : PartitionId} {s : Str} :
    partitionRoot p <+: partitionRoot q ++ s ↔ p = q := by
  have h := partitionRoot_append_isPrefix (p := p) (q := q) (s := []) (t := s)
  simpa using h

theorem partitionRoot_isPrefix_entryKey {p q : PartitionId} {d : Dn} :
    partitionRoot p <+: entryKey q d ↔ p = q := by
  rw [entryKey_segments, partitionRoot_isPrefix_append]

theorem partitionRoot_isPrefix_indexKey {p q : PartitionId} {a v : Str} {d : Dn} :
    partitionRoot p <+: indexKey q a v d ↔ p = q := by
  rw [indexKey_segments, partitionRoot_isPrefix_append]

theorem partitionRoot_isPrefix_indexRoot (p : PartitionId) : partitionRoot p <+: indexRoot p := by
  rw [indexRoot_eq]
  exact List.prefix_append _ _

theorem entryKey_ne_indexKey (p q : PartitionId) (d e : Dn) (attr value : Str) :
    entryKey p d ≠ indexKey q attr value e := by
  rw [entryKey_segments, indexKey_segments, Ne, partitionRoot_append_inj,
    Str.append_sep_inj (by decide) (by decide)]
  rintro ⟨-, h, -⟩
  exact absurd h (by decide)

theorem indexKey_inj {p q : PartitionId} {a b v w : Str} {d e : Dn} :
    indexKey p a v d = indexKey q b w e ↔
      p = q ∧ a.asciiLower = b.asciiLower ∧ v = w ∧ d.display = e.display := by
  rw [indexKey_segments, indexKey_segments, partitionRoot_append_inj,
    Str.append_sep_inj (by decide) (by decide),
    Str.append_sep_inj (slash_not_mem_escapeSegment _) (slash_not_mem_escapeSegment _),
    Str.append_sep_inj (slash_not_mem_escapeSegment _) (slash_not_mem_escapeSegment _),
    escapeSegment_injective.eq_iff, escapeSegment_injective.eq_iff, escapeSegment_injective.eq_iff]
  simp

theorem indexPrefix_isPrefix_indexKey {p q : PartitionId} {a b v w : Str} {d : Dn} :
    indexPrefix p a v <+: indexKey q b w d ↔
      p = q ∧ a.asciiLower = b.asciiLower ∧ v = w := by
  rw [indexPrefix_segments, indexKey_segments, partitionRoot_append_isPrefix,
    Str.append_sep_isPrefix (by decide) (by decide),
    Str.append_sep_isPrefix (slash_not_mem_escapeSegment _) (slash_not_mem_escapeSegment _),
    Str.append_sep_isPrefix (slash_not_mem_escapeSegment _) (slash_not_mem_escapeSegment _),
    escapeSegment_injective.eq_iff, escapeSegment_injective.eq_iff]
  simp

theorem indexRoot_isPrefix_indexKey (pid : PartitionId) (a v : Str) (d : Dn) :
    indexRoot pid <+: indexKey pid a v d := by
  rw [indexRoot_eq, indexKey_segments, partitionRoot_append_isPrefix]
  exact ⟨rfl, _, rfl⟩

theorem indexRoot_isPrefix_indexPrefix (pid : PartitionId) (a v : Str) :
    indexRoot pid <+: indexPrefix pid a v := by
  rw [indexRoot_eq, indexPrefix_segments, partitionRoot_append_isPrefix]
  exact ⟨rfl, _, rfl⟩

theorem not_indexRoot_isPrefix_entryKey (p q : PartitionId) (d : Dn) :
    ¬ indexRoot p <+: entryKey q d := by
  rw [indexRoot_eq, entryKey_segments, partitionRoot_append_isPrefix]
  rintro ⟨-, z, hz⟩
  exact absurd (congrArg List.head? hz) (by simp [Str.ofString])

theorem treeRoot_eq (pid : PartitionId) : treeRoot pid = partitionRoot pid ++ "tree/" := by
  simp [treeRoot, partitionRoot, Str.ofString]

theorem partitionRoot_isPrefix_treeRoot (p : PartitionId) : partitionRoot p <+: treeRoot p := by
  rw [treeRoot_eq]
  exact List.prefix_append _ _

theorem not_treeRoot_isPrefix_indexKey (p q : PartitionId) (a v : Str) (d : Dn) :
    ¬ treeRoot p <+: indexKey q a v d := by
  rw [treeRoot_eq, indexKey_segments, partitionRoot_append_isPrefix]
  rintro ⟨-, z, hz⟩
  exact absurd (congrArg List.head? hz) (by simp [Str.ofString])

theorem not_subtreePrefix_isPrefix_self (pid : PartitionId) (d : Dn) :
    ¬ subtreePrefix pid d <+: entryKey pid d := by
  intro h
  have hle := h.length_le
  simp [subtreePrefix] at hle

end Key

end IronDirectory.Naming
