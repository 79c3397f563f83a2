import IronDirectory.Defs.Storage.StoreLaws

namespace IronDirectory.Storage

open Base Naming

namespace RidPool

def firstAllocatableRid : Nat := 1000

def poolKey (pid : PartitionId) : Str := "/iron/" ++ pid.str ++ "/ridpool/next"

inductive Compare
  | value (s : Str)
  | absent

def Compare.holds (c : Cluster) (key : Str) : Compare → Bool
  | .value s =>
    match c.kv.find? key with
    | some (.text t) => t == s
    | _ => false
  | .absent => (c.kv.find? key).isNone

def current (pid : PartitionId) : Option Value → Except StoreError (Nat × Compare)
  | some v => do
    let s ← v.str
    match s.unsigned? (2 ^ 32) with
    | some n => return (n, .value s)
    | none => .error (.ridPoolCorrupt pid.str s)
  | none => return (firstAllocatableRid, .absent)

def next (n : Nat) : Str := Str.ofNat ((n + 1) % 2 ^ 32)

def advance (pid : PartitionId) (n : Nat) : List (TxnOp Str Value) :=
  [.put (poolKey pid) (.text (next n))]

def swap (c : Cluster) (pid : PartitionId) (n : Nat) (compare : Compare) :
    Except StoreError (Bool × Cluster) :=
  match c.writeFailure (advance pid n) with
  | some e => .error (.etcd e)
  | none =>
    if compare.holds c (poolKey pid) then
      .ok (true, { c with kv := TxnOp.applyAll (advance pid n) c.kv })
    else .ok (false, c)

def attempt (c : Cluster) (pid : PartitionId) : Except StoreError (Option Nat × Cluster) := do
  let (n, compare) ← current pid (← c.get (poolKey pid))
  let (succeeded, c) ← swap c pid n compare
  return (if succeeded then some n else none, c)

theorem find?_advance (pid : PartitionId) (n : Nat) (m : OrderedMap Str Value) (k : Str) :
    (TxnOp.applyAll (advance pid n) m).find? k =
      if k = poolKey pid then some (.text (next n)) else m.find? k :=
  OrderedMap.find?_insert m _ k _

theorem poolKey_segments (pid : PartitionId) :
    poolKey pid = Key.partitionRoot pid ++ ("ridpool" ++ '/' :: "next") := by
  simp [poolKey, Key.partitionRoot, Str.ofString]

theorem poolKey_ne_entryKey (p q : PartitionId) (d : Dn) : poolKey p ≠ Key.entryKey q d := by
  rw [poolKey_segments, Key.entryKey_segments, Ne, Key.partitionRoot_append_inj,
    Str.append_sep_inj (by decide) (by decide)]
  rintro ⟨-, h, -⟩
  exact absurd h (by decide)

theorem poolKey_ne_indexKey (p q : PartitionId) (attr value : Str) (d : Dn) :
    poolKey p ≠ Key.indexKey q attr value d := by
  rw [poolKey_segments, Key.indexKey_segments, Ne, Key.partitionRoot_append_inj,
    Str.append_sep_inj (by decide) (by decide)]
  rintro ⟨-, h, -⟩
  exact absurd h (by decide)

theorem current_holds {c : Cluster} {pid : PartitionId} {n : Nat} {compare : Compare}
    (h : current pid (c.kv.find? (poolKey pid)) = .ok (n, compare)) :
    compare.holds c (poolKey pid) = true := by
  cases hv : c.kv.find? (poolKey pid) with
  | none =>
    rw [hv] at h
    cases h
    simp [Compare.holds, hv]
  | some v =>
    rw [hv] at h
    cases v with
    | entry e => cases h
    | text s =>
      simp only [current, Value.str, Outcome.ok_bind] at h
      split at h
      · cases h
        simp [Compare.holds, hv]
      · cases h

theorem attempt_eq_ok {c c' : Cluster} {pid : PartitionId} {r : Option Nat}
    (h : attempt c pid = .ok (r, c')) :
    ∃ n compare, r = some n ∧ current pid (c.kv.find? (poolKey pid)) = .ok (n, compare) ∧
      swap c pid n compare = .ok (true, c') := by
  obtain ⟨v, hget, h⟩ := Outcome.bind_eq_ok.mp h
  obtain ⟨⟨n, compare⟩, hcur, h⟩ := Outcome.bind_eq_ok.mp h
  obtain ⟨⟨succeeded, c₁⟩, hswap, h⟩ := Outcome.bind_eq_ok.mp h
  rw [← Cluster.get_eq_ok hget] at hcur
  cases succeeded with
  | true =>
    cases h
    exact ⟨n, compare, rfl, hcur, hswap⟩
  | false =>
    rw [swap] at hswap
    split at hswap
    · cases hswap
    · rw [if_pos (current_holds hcur)] at hswap
      cases hswap

theorem attempt_isSome {c c' : Cluster} {pid : PartitionId} {r : Option Nat}
    (h : attempt c pid = .ok (r, c')) : r.isSome = true := by
  obtain ⟨n, -, rfl, -⟩ := attempt_eq_ok h
  rfl

def allocateRid (c : Cluster) (pid : PartitionId) : Except StoreError (Nat × Cluster) :=
  match h : attempt c pid with
  | .error e => .error e
  | .ok (r, c') => .ok (r.get (attempt_isSome h), c')

theorem allocateRid_eq_ok {c c' : Cluster} {pid : PartitionId} {rid : Nat}
    (h : allocateRid c pid = .ok (rid, c')) :
    ∃ compare, current pid (c.kv.find? (poolKey pid)) = .ok (rid, compare) ∧
      swap c pid rid compare = .ok (true, c') := by
  unfold allocateRid at h
  split at h
  · cases h
  · next hattempt =>
    obtain ⟨n, compare, rfl, hcur, hswap⟩ := attempt_eq_ok hattempt
    cases h
    exact ⟨compare, hcur, hswap⟩

theorem swap_eq_true {c c' : Cluster} {pid : PartitionId} {n : Nat} {compare : Compare}
    (h : swap c pid n compare = .ok (true, c')) :
    compare.holds c (poolKey pid) = true ∧
      c' = { c with kv := TxnOp.applyAll (advance pid n) c.kv } := by
  unfold swap at h
  split at h
  · cases h
  · split at h
    · cases h
      exact ⟨‹_›, rfl⟩
    · cases h

theorem swap_eq_false {c c' : Cluster} {pid : PartitionId} {n : Nat} {compare : Compare}
    (h : swap c pid n compare = .ok (false, c')) : c' = c := by
  unfold swap at h
  split at h
  · cases h
  · split at h
    · cases h
    · cases h
      rfl

end RidPool

section Keyspace

inductive KeyKind
  | tree
  | index
  | ridPool
  deriving DecidableEq

def KeyKind.keys (kind : KeyKind) (pid : PartitionId) : Set Str :=
  match kind with
  | .tree => {k | ∃ d, k = Key.entryKey pid d}
  | .index => {k | ∃ attr value d, k = Key.indexKey pid attr value d}
  | .ridPool => {RidPool.poolKey pid}

def KeyKind.root : KeyKind → Str
  | .tree => "tree"
  | .index => "idx"
  | .ridPool => "ridpool"

theorem KeyKind.root_injective : Function.Injective KeyKind.root := by
  intro kind kind' h
  cases kind <;> cases kind' <;> first | rfl | exact absurd h (by decide)

theorem KeyKind.slash_not_mem_root (kind : KeyKind) : '/' ∉ kind.root := by
  cases kind <;> decide

theorem KeyKind.segments {kind : KeyKind} {pid : PartitionId} {k : Str} (h : k ∈ kind.keys pid) :
    ∃ rest, k = Key.partitionRoot pid ++ (kind.root ++ '/' :: rest) := by
  cases kind with
  | tree =>
    obtain ⟨d, rfl⟩ := h
    exact ⟨_, Key.entryKey_segments pid d⟩
  | index =>
    obtain ⟨attr, value, d, rfl⟩ := h
    exact ⟨_, Key.indexKey_segments pid attr value d⟩
  | ridPool =>
    obtain rfl := h
    exact ⟨_, RidPool.poolKey_segments pid⟩

theorem KeyKind.keys_nonempty (kind : KeyKind) (pid : PartitionId) : (kind.keys pid).Nonempty := by
  cases kind with
  | tree => exact ⟨_, .root, rfl⟩
  | index => exact ⟨_, [], [], .root, rfl⟩
  | ridPool => exact ⟨_, rfl⟩

/-- An index prefix finds the keys of its own attribute and value only, and no
key belongs to two kinds or to two partitions. -/
theorem keyspace_disjoint :
    (∀ (p q : PartitionId) (a b v w : Str) (d : Dn),
      Key.indexPrefix p a v <+: Key.indexKey q b w d ↔
        p = q ∧ a.eqIgnoreAsciiCase b = true ∧ v = w) ∧
    ∀ (kind kind' : KeyKind) (p q : PartitionId),
      (kind.keys p ∩ kind'.keys q).Nonempty ↔ kind = kind' ∧ p = q := by
  constructor
  · intro p q a b v w d
    rw [Key.indexPrefix_isPrefix_indexKey, Str.eqIgnoreAsciiCase, beq_iff_eq]
  · intro kind kind' p q
    constructor
    · rintro ⟨k, hk, hk'⟩
      obtain ⟨rest, rfl⟩ := KeyKind.segments hk
      obtain ⟨rest', heq⟩ := KeyKind.segments hk'
      rw [Key.partitionRoot_append_inj,
        Str.append_sep_inj kind.slash_not_mem_root kind'.slash_not_mem_root] at heq
      exact ⟨KeyKind.root_injective heq.2.1, heq.1⟩
    · rintro ⟨rfl, rfl⟩
      rw [Set.inter_self]
      exact kind.keys_nonempty p

end Keyspace

def Store.allocateRid (s : Store) (dnInPartition : Dn) : Except StoreError (Nat × Store) := do
  let p ← s.resolve dnInPartition
  let ref ← s.client p.id
  let (rid, c) ← RidPool.allocateRid (s.clusters ref) p.id
  return (rid, s.setCluster ref c)

end IronDirectory.Storage
