import IronDirectory.Defs.Config.Registry
import IronDirectory.Defs.Naming.Child

namespace IronDirectory.Config

open Base Crypto Naming Storage Prog

/-- The place of one partition's record, as the tools name it. -/
structure Slot where
  cluster : ClusterRef
  configId : PartitionId
  configDn : Dn
  id : PartitionId
  dn : Dn
  wf : configDn.Wf
  named : recordDn configDn id = .ok dn

variable {json : Json} {s t : Clusters} {slot : Slot} {data : PartitionData}

def Slot.Holds (json : Json) (slot : Slot) (s : Clusters) (data : PartitionData) : Prop :=
  data.id = slot.id ∧ ∃ e, entryAt s slot.cluster slot.configId slot.dn = some (.entry e) ∧
    recordData json slot.dn e = .ok data

theorem recordDn_eq_ok {configDn dn : Dn} {id : PartitionId} (hw : configDn.Wf) :
    recordDn configDn id = .ok dn ↔ configDn.rdns ≠ [] ∧
      ∃ b, Dn.parse configDn.display = .ok b ∧ dn = b.below id.str := by
  rw [recordDn, Outcome.mapError_eq_ok, Dn.parse_below id.word hw]

theorem recordData_eq_ok {dn : Dn} {e : Entry} :
    recordData json dn e = .ok data ↔
      ∃ raw, (e.get attrPartitionData).bind List.head? = some raw ∧ json.fromStr raw = .ok data := by
  rw [recordData, Outcome.bind_eq_ok]
  simp

namespace PartitionData

theorem toPartition_eq_ok {d : PartitionData} {p : Partition} (h : d.toPartition = .ok p) :
    ofPartition p = { d with baseDn := p.baseDn.display } := by
  obtain ⟨baseDn, -, h⟩ := Outcome.bind_eq_ok.mp h
  cases h
  rfl

end PartitionData

namespace Slot

theorem Holds.unique {data' : PartitionData} (h : slot.Holds json s data)
    (h' : slot.Holds json s data') : data = data' := by
  obtain ⟨-, e, he, hd⟩ := h
  obtain ⟨-, e', he', hd'⟩ := h'
  cases he.symm.trans he'
  exact Except.ok.inj (hd.symm.trans hd')

def read (json : Json) (slot : Slot) (s : Clusters) : Option PartitionData :=
  match entryAt s slot.cluster slot.configId slot.dn with
  | some (.entry e) => (recordData json slot.dn e).toOption
  | _ => none

theorem holds_of_read (h : slot.read json s = some data) (hid : data.id = slot.id) :
    slot.Holds json s data := by
  unfold read at h
  split at h
  · next e he => exact ⟨hid, e, he, Outcome.toOption_eq_some.mp h⟩
  · cases h

def At (slot : Slot) (ref : ClusterRef) (pid : PartitionId) (dn : Dn) : Prop :=
  slot.cluster = ref ∧ Key.entryKey slot.configId slot.dn = Key.entryKey pid dn

instance At.decidable (slot : Slot) (ref : ClusterRef) (pid : PartitionId) (dn : Dn) :
    Decidable (slot.At ref pid dn) :=
  inferInstanceAs (Decidable (_ ∧ _))

section Write

variable {ref : ClusterRef} {pid id : PartitionId} {configDn dn : Dn} {p : Partition}

theorem At.id_eq (h : slot.At ref pid dn) (hw : configDn.Wf) (hdn : recordDn configDn id = .ok dn) :
    slot.id = id ∧ slot.configId = pid := by
  obtain ⟨-, b, -, hslot⟩ := (recordDn_eq_ok slot.wf).mp slot.named
  obtain ⟨-, b', -, rfl⟩ := (recordDn_eq_ok hw).mp hdn
  have hkey := h.2
  rw [hslot] at hkey
  obtain ⟨hpid, hid, -⟩ := Key.entryKey_below_inj slot.id.word id.word hkey
  rw [slot.id.asciiLower, id.asciiLower] at hid
  exact ⟨PartitionId.ext_str hid, hpid⟩

theorem holds_of_stores (h : slot.At ref pid dn) (hw : configDn.Wf)
    (hdn : recordDn configDn p.id = .ok dn)
    (hst : Stores ref pid dn (partitionToEntry json p) s t) :
    slot.Holds json t (.ofPartition p) := by
  exact ⟨(h.id_eq hw hdn).1.symm, partitionToEntry json p, (hst _ _ _).trans (if_pos h), by simp⟩

theorem holds_iff_of_stores {e : Entry} (h : ¬ slot.At ref pid dn) (hst : Stores ref pid dn e s t) :
    slot.Holds json t data ↔ slot.Holds json s data := by
  rw [Holds, Holds, (hst _ _ _).trans (if_neg h)]

end Write

end Slot

theorem iter_singleton (p : Partition) : (PartitionRegistry.singleton p).iter = [p] := rfl

theorem locate_eq_ok {reg : PartitionRegistry} {dn : Dn} {pid : PartitionId} {ref : ClusterRef}
    (h : Calls.locate reg dn = .ok (pid, ref)) :
    ∃ p, reg.resolve dn = some p ∧ pid = p.id ∧ ref = p.cluster := by
  obtain ⟨p, hp, h⟩ := Outcome.bind_eq_ok.mp h
  obtain ⟨q, hq, h⟩ := Outcome.bind_eq_ok.mp h
  rw [Outcome.require_eq_ok] at hp hq
  cases h
  have hget := PartitionRegistry.mem_iter_iff.mp (PartitionRegistry.resolve_mem hp).1
  cases hq.symm.trans hget
  exact ⟨p, hp, rfl, rfl⟩

theorem locate_singleton {config : Partition} {dn : Dn} {pid : PartitionId} {ref : ClusterRef}
    (h : Calls.locate (.singleton config) dn = .ok (pid, ref)) :
    pid = config.id ∧ ref = config.cluster ∧ dn.isWithin config.baseDn = true := by
  obtain ⟨p, hp, rfl, rfl⟩ := locate_eq_ok h
  obtain ⟨hmem, hin⟩ := PartitionRegistry.resolve_mem hp
  rw [iter_singleton, List.mem_singleton] at hmem
  subst hmem
  exact ⟨rfl, rfl, hin⟩

theorem get_of_registryOf {reg : PartitionRegistry} {configDn dn : Dn} {pid : PartitionId}
    {rows : List (Str × Value)} {entries : List (Dn × Entry)} {k : Str} {e : Entry}
    (hread : rows.mapM (Tree.readRow pid) = .ok entries)
    (hreg : registryOf json configDn entries = .ok reg) (hrow : (k, Value.entry e) ∈ rows)
    (hdata : recordData json dn e = .ok data) :
    ∃ p, data.toPartition = .ok p ∧ reg.get data.id = some p := by
  obtain ⟨partitions, hparts, hfrom⟩ := Outcome.bind_eq_ok.mp hreg
  rw [Outcome.mapError_eq_ok] at hfrom
  obtain ⟨⟨dn', e'⟩, hmem', hrowread⟩ := Outcome.exists_of_mapM_eq_ok hread hrow
  obtain ⟨-, hvalue⟩ := Tree.readRow_eq_ok.mp hrowread
  cases hvalue
  have hkept : (dn', e) ∈ entries.filter fun row => !isBareBase configDn row.1 row.2 := by
    refine List.mem_filter.mpr ⟨hmem', ?_⟩
    obtain ⟨raw, hraw, -⟩ := recordData_eq_ok.mp hdata
    cases hget : e.get attrPartitionData with
    | none => simp [hget] at hraw
    | some values => simp [isBareBase, hget]
  obtain ⟨q, hq, hconvert⟩ := Outcome.exists_of_mapM_eq_ok hparts hkept
  obtain ⟨data', hdata', hto⟩ := Outcome.bind_eq_ok.mp hconvert
  obtain rfl : data' = data := by
    obtain ⟨raw, hraw, hjson⟩ := recordData_eq_ok.mp hdata
    obtain ⟨raw', hraw', hjson'⟩ := recordData_eq_ok.mp hdata'
    cases hraw.symm.trans hraw'
    exact Except.ok.inj (hjson'.symm.trans hjson)
  rw [Outcome.mapError_eq_ok] at hto
  have hqid : q.id = data'.id := congrArg PartitionData.id (PartitionData.toPartition_eq_ok hto)
  exact ⟨q, hto, (PartitionRegistry.get_fromPartitions hfrom).mpr ⟨hq, hqid⟩⟩

theorem get_of_loaded {config : Partition} {reg : PartitionRegistry} {dn : Dn}
    (hload : loaded json (.singleton config) config.baseDn s = .ok reg)
    (hholds : slot.Holds json s data) (hat : slot.At config.cluster config.id dn)
    (hin : dn.isWithin config.baseDn = true) (hne : config.baseDn.isEmpty = false) :
    ∃ p, data.toPartition = .ok p ∧ reg.get slot.id = some p := by
  obtain ⟨entries, hscan, hreg⟩ := Outcome.bind_eq_ok.mp hload
  rw [Outcome.mapError_eq_ok] at hscan
  obtain ⟨p, hp, hscan⟩ := Outcome.bind_eq_ok.mp hscan
  have hres := Store.resolve_eq_ok hp
  rw [Store.client_of_resolve hres, Outcome.ok_bind] at hscan
  obtain ⟨rows, hrows, hread⟩ := Outcome.bind_eq_ok.mp hscan
  have hmem := (PartitionRegistry.resolve_mem hres).1
  obtain rfl : p = config := List.mem_singleton.mp hmem
  obtain ⟨hid, e, hentry, hdata⟩ := hholds
  have hrow : (Key.entryKey p.id dn, Value.entry e) ∈ rows := by
    refine (Tree.mem_scanSubtree hrows).mpr ⟨?_, Tree.entryKey_of_isWithin hin hne⟩
    rw [← hat.2, ← hat.1]
    exact hentry
  rw [← hid]
  exact get_of_registryOf hread hreg hrow hdata

end IronDirectory.Config
