import IronDirectory.Defs.Base.OrderedMap
import IronDirectory.Defs.Base.Outcome
import IronDirectory.Defs.Naming.Dn

namespace IronDirectory.Naming

open Base

def isIdChar (c : Char) : Bool := ('a' ≤ c && c ≤ 'z') || ('0' ≤ c && c ≤ '9') || c == '-'

def validId (s : Str) : Bool :=
  !s.isEmpty && s.head? != some '-' && s.getLast? != some '-' && s.all isIdChar

/-- Identifiers are only built through `new`, so the rule is a field. -/
structure PartitionId where
  str : Str
  valid : validId str = true
  deriving DecidableEq

def PartitionId.new (s : Str) : Except PartitionError PartitionId :=
  if h : validId s = true then .ok ⟨s, h⟩ else .error (.invalidId s)

structure ForestId where
  str : Str
  valid : validId str = true
  deriving DecidableEq

theorem PartitionId.ext_str {p q : PartitionId} (h : p.str = q.str) : p = q := by
  cases p
  cases q
  cases h
  rfl

theorem PartitionId.isIdChar_of_mem (p : PartitionId) {c : Char} (hc : c ∈ p.str) :
    isIdChar c = true := by
  have h := p.valid
  simp only [validId, Bool.and_eq_true, List.all_eq_true] at h
  exact h.2 c hc

theorem PartitionId.slash_not_mem (p : PartitionId) : '/' ∉ p.str :=
  fun h => absurd (p.isIdChar_of_mem h) (by decide)

instance : LinearOrder PartitionId :=
  LinearOrder.lift' PartitionId.str fun _ _ => PartitionId.ext_str

inductive PartitionKind
  | domain | schema | configuration | application
  deriving DecidableEq

structure TlsRef where
  ca : Str
  cert : Str
  key : Str
  deriving DecidableEq

structure ClusterRef where
  endpoints : List Str
  tls : Option TlsRef
  deriving DecidableEq

structure Partition where
  id : PartitionId
  forest : ForestId
  baseDn : Dn
  kind : PartitionKind
  realm : Option Str
  cluster : ClusterRef
  superior : Option PartitionId
  subordinates : List PartitionId
  ldapUrl : Option Str
  kdcUrl : Option Str
  domainSid : Option Str
  netbiosName : Option Str
  deriving DecidableEq

/-- Every record sits under its own id: `insert` is the only way in. -/
structure PartitionRegistry where
  partitions : OrderedMap PartitionId Partition
  keyed : ∀ e ∈ partitions.entries, e.2.id = e.1

namespace PartitionRegistry

def new : PartitionRegistry := ⟨.empty, by simp [OrderedMap.empty]⟩

def insert (reg : PartitionRegistry) (p : Partition) : Except PartitionError PartitionRegistry :=
  match reg.partitions.find? p.id with
  | some _ => .error (.duplicateId p.id.str)
  | none =>
    .ok ⟨reg.partitions.insert p.id p, fun e he =>
      (OrderedMap.mem_insertList he).elim (fun h => h ▸ rfl) (reg.keyed e)⟩

def fromPartitions (ps : List Partition) : Except PartitionError PartitionRegistry :=
  ps.foldlM insert new

def singleton (p : Partition) : PartitionRegistry :=
  ⟨OrderedMap.empty.insert p.id p, fun e he =>
    (OrderedMap.mem_insertList he).elim (fun h => h ▸ rfl) (by simp [OrderedMap.empty])⟩

def get (reg : PartitionRegistry) (id : PartitionId) : Option Partition := reg.partitions.find? id

def iter (reg : PartitionRegistry) : List Partition := reg.partitions.values

def maxByKey {α : Type} (key : α → Nat) (xs : List α) : Option α :=
  xs.foldl (fun best x =>
    match best with
    | none => some x
    | some b => if key x < key b then some b else some x) none

def resolve (reg : PartitionRegistry) (dn : Dn) : Option Partition :=
  maxByKey (fun p => p.baseDn.depth) (reg.iter.filter fun p => dn.isWithin p.baseDn)

def superiorOf (reg : PartitionRegistry) (id : PartitionId) : Option Partition :=
  (reg.get id).bind fun p => p.superior.bind reg.get

def subordinatesOf (reg : PartitionRegistry) (id : PartitionId) : List Partition :=
  match reg.get id with
  | none => []
  | some p => p.subordinates.filterMap reg.get

def single (ps : List Partition) : Option Partition :=
  match ps with
  | [p] => some p
  | _ => none

def partitionOfKind (reg : PartitionRegistry) (forest : ForestId) (kind : PartitionKind) :
    Option Partition :=
  single (reg.iter.filter fun p => p.forest = forest ∧ p.kind = kind)

def configPartition (reg : PartitionRegistry) (forest : ForestId) : Option Partition :=
  reg.partitionOfKind forest .configuration

def schemaPartition (reg : PartitionRegistry) (forest : ForestId) : Option Partition :=
  reg.partitionOfKind forest .schema

def rootDomainPartition (reg : PartitionRegistry) (forest : ForestId) : Option Partition :=
  single (reg.iter.filter fun p =>
    p.forest = forest ∧ p.kind = .domain ∧ p.superior.isNone = true)

theorem maxByKey_foldl_mem {α : Type} (key : α → Nat) (xs : List α) (best : Option α) {x : α}
    (h : xs.foldl (fun best x =>
      match best with
      | none => some x
      | some b => if key x < key b then some b else some x) best = some x) :
    best = some x ∨ x ∈ xs := by
  induction xs generalizing best with
  | nil => exact .inl h
  | cons y ys ih =>
    cases ih _ h with
    | inr hx => exact .inr (List.mem_cons_of_mem _ hx)
    | inl hx =>
      cases best with
      | none =>
        obtain rfl : y = x := by simpa using hx
        exact .inr List.mem_cons_self
      | some b =>
        simp only at hx
        split at hx
        · exact .inl hx
        · obtain rfl : y = x := by simpa using hx
          exact .inr List.mem_cons_self

theorem maxByKey_mem {α : Type} {key : α → Nat} {xs : List α} {x : α}
    (h : maxByKey key xs = some x) : x ∈ xs := by
  simpa using maxByKey_foldl_mem key xs none h

theorem resolve_mem {reg : PartitionRegistry} {dn : Dn} {p : Partition}
    (h : reg.resolve dn = some p) : p ∈ reg.iter ∧ dn.isWithin p.baseDn = true :=
  List.mem_filter.mp (maxByKey_mem h)

theorem mem_iter_iff {reg : PartitionRegistry} {p : Partition} :
    p ∈ reg.iter ↔ reg.get p.id = some p := by
  simp only [iter, OrderedMap.values, List.mem_map, get]
  constructor
  · rintro ⟨⟨k, q⟩, he, rfl⟩
    rw [← OrderedMap.mem_entries_iff, reg.keyed _ he]
    exact he
  · intro h
    exact ⟨(p.id, p), OrderedMap.mem_entries_iff.mpr h, rfl⟩

theorem insert_eq_ok {reg reg' : PartitionRegistry} {p : Partition} (h : reg.insert p = .ok reg') :
    reg.get p.id = none ∧ ∀ id, reg'.get id = if id = p.id then some p else reg.get id := by
  unfold insert at h
  split at h
  · cases h
  · next hnone =>
    cases h
    exact ⟨hnone, fun id => OrderedMap.find?_insert _ _ _ _⟩

theorem foldlM_insert_eq_ok {reg reg' : PartitionRegistry} {ps : List Partition}
    (h : ps.foldlM insert reg = .ok reg') :
    (∀ p ∈ ps, reg'.get p.id = some p) ∧ (∀ id p, reg.get id = some p → reg'.get id = some p) ∧
      ∀ id p, reg'.get id = some p → reg.get id = some p ∨ p ∈ ps := by
  induction ps generalizing reg with
  | nil =>
    cases h
    exact ⟨by simp, fun _ _ h => h, fun _ _ h => .inl h⟩
  | cons p ps ih =>
    rw [List.foldlM_cons, Outcome.bind_eq_ok] at h
    obtain ⟨mid, hmid, hrest⟩ := h
    obtain ⟨hnew, hget⟩ := insert_eq_ok hmid
    obtain ⟨hmem, hkeep, hsource⟩ := ih hrest
    refine ⟨List.forall_mem_cons.mpr ⟨hkeep _ _ (by rw [hget, if_pos rfl]), hmem⟩, ?_, ?_⟩
    · intro id q hq
      refine hkeep id q ?_
      rw [hget, if_neg, hq]
      rintro rfl
      cases hnew.symm.trans hq
    · intro id q hq
      cases hsource id q hq with
      | inr h => exact .inr (List.mem_cons_of_mem _ h)
      | inl h =>
        rw [hget] at h
        split at h
        · cases h
          exact .inr List.mem_cons_self
        · exact .inl h

theorem get_fromPartitions {ps : List Partition} {reg : PartitionRegistry}
    (h : fromPartitions ps = .ok reg) {id : PartitionId} {p : Partition} :
    reg.get id = some p ↔ p ∈ ps ∧ p.id = id := by
  obtain ⟨hmem, -, hsource⟩ := foldlM_insert_eq_ok h
  constructor
  · intro hget
    have hid : p.id = id := reg.keyed (id, p) (OrderedMap.mem_entries_iff.mpr hget)
    cases hsource id p hget with
    | inl h => cases h
    | inr h => exact ⟨h, hid⟩
  · rintro ⟨hp, rfl⟩
    exact hmem p hp

end PartitionRegistry

end IronDirectory.Naming
