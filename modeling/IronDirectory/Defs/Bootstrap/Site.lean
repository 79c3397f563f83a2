import IronDirectory.Defs.Bootstrap.Provision

namespace IronDirectory.Naming

open Base

namespace Dn

variable {d b : Dn} {v w : Str}

theorem isWithin_self (d : Dn) : d.isWithin d = true := isWithin_iff_suffix.mpr List.suffix_rfl

theorem norm_below (d : Dn) (v : Str) :
    (d.below v).norm = [(("cn" : Str), Ava.normValue ⟨"cn", v⟩)] :: d.norm := rfl

theorem below_isWithin (d : Dn) (v : Str) : (d.below v).isWithin d = true :=
  isWithin_iff_suffix.mpr (norm_below d v ▸ List.suffix_cons _ _)

theorem not_isWithin_below (d : Dn) (v : Str) : d.isWithin (d.below v) = false := by
  cases h : d.isWithin (d.below v) with
  | false => rfl
  | true =>
    have hle := depth_le_of_isWithin h
    rw [depth, depth, below, List.length_cons] at hle
    omega

theorem below_not_isWithin_below (hv : Word v) (hw : Word w) (hne : v.asciiLower ≠ w.asciiLower) :
    (d.below v).isWithin (d.below w) = false := by
  cases h : (d.below v).isWithin (d.below w) with
  | false => rfl
  | true =>
    have hsame : (d.below w).Same (d.below v) := same_of_isWithin h le_rfl
    rw [Same, norm_below, norm_below, hv.normValue, hw.normValue] at hsame
    exact absurd (by simpa using hsame.symm) hne

theorem path_below_ne (hv : Word v) (d : Dn) : (d.below v).path ≠ d.path := by
  intro h
  rw [path, path, reversedComponents_below hv] at h
  by_cases hnil : d.reversedComponents = []
  · rw [hnil] at h
    exact absurd (congrArg List.length h) (by simp [Str.join, Str.ofString])
  · rw [Str.join_append hnil (by simp)] at h
    exact absurd (congrArg List.length h) (by simp)

theorem Worded.parse_below (h : d.Worded) (hne : d.rdns ≠ []) (hv : Word v) :
    parse ("cn=" ++ v ++ ',' :: d.display) = .ok (d.below v) :=
  (Dn.parse_below hv h.wf).mpr ⟨hne, d, h.parse_display, rfl⟩

end Dn

theorem PartitionId.new_eq_ok {v : Str} {p : PartitionId} (h : PartitionId.new v = .ok p) :
    p.str = v := by
  unfold PartitionId.new at h
  split at h
  · cases h
    rfl
  · cases h

end IronDirectory.Naming

namespace IronDirectory.Bootstrap

open Base Crypto Naming Storage Config Kdc

theorem locate_of_resolve {reg : PartitionRegistry} {dn : Dn} {p : Partition}
    (h : reg.resolve dn = some p) : Calls.locate reg dn = .ok (p.id, p.cluster) := by
  rw [Calls.locate, h, Outcome.require_some, Outcome.ok_bind,
    PartitionRegistry.mem_iter_iff.mp (PartitionRegistry.resolve_mem h).1]
  rfl

def Settings.configBase (s : Settings) : Dn := s.baseDn.below "configuration"

structure Site (s : Settings) (reg : PartitionRegistry) where
  domainId : PartitionId
  configId : PartitionId
  domainId_str : domainId.str = s.partitionId
  configId_str : configId.str = s.configPartitionId
  worded : s.baseDn.Worded
  ne_root : s.baseDn.rdns ≠ []
  locate_config : ∀ dn, dn.isWithin s.configBase = true →
    Calls.locate reg dn = .ok (configId, s.cluster)
  locate_domain : ∀ dn, dn.isWithin s.baseDn = true → dn.isWithin s.configBase = false →
    Calls.locate reg dn = .ok (domainId, s.cluster)

theorem word_configuration : Word "configuration" := PartitionId.word ⟨"configuration", rfl⟩

theorem word_krbtgt : Word "krbtgt" := PartitionId.word ⟨"krbtgt", rfl⟩

theorem word_administrator : Word administrator := PartitionId.word ⟨administrator, rfl⟩

section Registry

variable {s : Settings} {reg : PartitionRegistry}

theorem Settings.configDn_eq_ok {configDn : Dn} (h : s.configDn = .ok configDn)
    (hbase : s.baseDn.Worded) : s.baseDn.rdns ≠ [] ∧ configDn = s.configBase := by
  obtain ⟨hne, b, hb, rfl⟩ := (Dn.parse_below word_configuration hbase.wf).mp h
  cases hb.symm.trans hbase.parse_display
  exact ⟨hne, rfl⟩

theorem exists_site (h : s.registry = .ok reg) (hbase : s.baseDn.Worded) :
    Nonempty (Site s reg) := by
  simp only [Settings.registry, parsed, Outcome.bind_eq_ok, Outcome.mapError_eq_ok] at h
  obtain ⟨forest, -, configDn, hconfigDn, config, hconfig, first, hfirst, domain, hdomain,
    hsecond⟩ := h
  obtain ⟨hne, rfl⟩ := Settings.configDn_eq_ok hconfigDn hbase
  have hmem : ∀ p, p ∈ reg.iter ↔ p = config ∨ p = domain := by
    have hfrom : PartitionRegistry.fromPartitions [config, domain] = .ok reg := by
      simp only [PartitionRegistry.fromPartitions, List.foldlM_cons, List.foldlM_nil, hfirst,
        hsecond, Outcome.ok_bind]
      rfl
    intro p
    rw [PartitionRegistry.mem_iter_iff, PartitionRegistry.get_fromPartitions hfrom]
    simp
  obtain ⟨configId, hconfigId, hconfig⟩ := Outcome.bind_eq_ok.mp hconfig
  obtain ⟨domainId, hdomainId, hdomain⟩ := Outcome.bind_eq_ok.mp hdomain
  cases hconfig
  cases hdomain
  have hlocate : ∀ dn, dn.isWithin s.baseDn = true → ∃ p, reg.Owns dn p ∧
      Calls.locate reg dn = .ok (p.id, p.cluster) := by
    intro dn hin
    cases hres : reg.resolve dn with
    | none =>
      have hout := PartitionRegistry.resolve_eq_none.mp hres _ ((hmem _).mpr (.inr rfl))
      cases hout.symm.trans hin
    | some p => exact ⟨p, PartitionRegistry.owns_of_resolve hres, locate_of_resolve hres⟩
  refine ⟨⟨domainId, configId, PartitionId.new_eq_ok hdomainId, PartitionId.new_eq_ok hconfigId,
    hbase, hne, fun dn hin => ?_, fun dn hin hout => ?_⟩⟩
  · obtain ⟨p, howns, hp⟩ := hlocate dn (Dn.isWithin_trans hin (Dn.below_isWithin _ _))
    cases (hmem p).mp howns.mem with
    | inl h =>
      subst h
      exact hp
    | inr h =>
      have hle := howns.deepest _ ((hmem _).mpr (.inl rfl)) hin
      rw [h] at hle
      exact absurd hle (Nat.not_succ_le_self _)
  · obtain ⟨p, howns, hp⟩ := hlocate dn hin
    cases (hmem p).mp howns.mem with
    | inl h => cases (h ▸ howns.within).symm.trans hout
    | inr h =>
      subst h
      exact hp

end Registry

inductive Object
  | base | krbtgt | administrator
  deriving DecidableEq

def Settings.objectDn (s : Settings) : Object → Dn
  | .base => s.baseDn
  | .krbtgt => s.baseDn.below "krbtgt"
  | .administrator => s.baseDn.below administrator

namespace Site

variable {s : Settings} {reg : PartitionRegistry} (site : Site s reg)

include site

theorem ne_domainId {id : PartitionId} {suffix : Str} (hid : id.str = s.partitionId ++ suffix)
    (hne : suffix ≠ []) : id ≠ site.domainId := by
  rintro rfl
  rw [site.domainId_str] at hid
  exact hne (List.self_eq_append_right.mp hid)

theorem worded_configBase : s.configBase.Worded := site.worded.below word_configuration

theorem locate_object (o : Object) :
    Calls.locate reg (s.objectDn o) = .ok (site.domainId, s.cluster) := by
  cases o with
  | base => exact site.locate_domain _ (Dn.isWithin_self _) (Dn.not_isWithin_below _ _)
  | krbtgt =>
    exact site.locate_domain _ (Dn.below_isWithin _ _)
      (Dn.below_not_isWithin_below word_krbtgt word_configuration (by decide))
  | administrator =>
    exact site.locate_domain _ (Dn.below_isWithin _ _)
      (Dn.below_not_isWithin_below word_administrator word_configuration (by decide))

theorem recordDn_configBase (id : PartitionId) :
    recordDn s.configBase id = .ok (s.configBase.below id.str) :=
  (recordDn_eq_ok site.worded_configBase.wf).mpr
    ⟨List.cons_ne_nil _ _, _, site.worded_configBase.parse_display, rfl⟩

theorem krbtgtDn_eq : s.krbtgtDn = .ok (s.objectDn .krbtgt) :=
  site.worded.parse_below site.ne_root word_krbtgt

theorem adminDn_eq : s.adminDn = .ok (s.objectDn .administrator) :=
  site.worded.parse_below site.ne_root word_administrator

def rootSlot : Slot where
  cluster := s.cluster
  configId := site.configId
  configDn := s.configBase
  id := site.domainId
  dn := s.configBase.below site.domainId.str
  wf := site.worded_configBase.wf
  named := site.recordDn_configBase site.domainId

end Site

end IronDirectory.Bootstrap
