import IronDirectory.Defs.Naming.DisplayText
import IronDirectory.Defs.Naming.PlainName
import IronDirectory.Defs.Naming.Routing

namespace IronDirectory.Naming

open Base Escape

structure Word (v : Str) : Prop where
  ne_nil : v ≠ []
  not_meta : ∀ c ∈ v, c ∉ metacharacters
  not_blank : ∀ c ∈ v, Str.isWhitespace c = false

theorem isIdChar_ascii : ∀ n < 128, isIdChar (Char.ofNat n) = true →
    Char.ofNat n ∉ metacharacters ∧ Str.isWhitespace (Char.ofNat n) = false ∧
      (Char.ofNat n).toLower = Char.ofNat n := by decide

theorem isIdChar_cases {c : Char} (h : isIdChar c = true) :
    c ∉ metacharacters ∧ Str.isWhitespace c = false ∧ c.toLower = c := by
  have hlt : c.toNat < 128 := by
    simp only [isIdChar, Bool.or_eq_true, Bool.and_eq_true, decide_eq_true_eq, beq_iff_eq,
      Char.le_def, UInt32.le_iff_toNat_le] at h
    rcases h with (⟨-, h⟩ | ⟨-, h⟩) | rfl
    · exact lt_of_le_of_lt h (by decide)
    · exact lt_of_le_of_lt h (by decide)
    · decide
  have hc := isIdChar_ascii c.toNat hlt
  rw [Char.ofNat_toNat] at hc
  exact hc h

namespace PartitionId

theorem word (p : PartitionId) : Word p.str where
  ne_nil := by
    have h := p.valid
    simp only [validId, Bool.and_eq_true] at h
    simpa using h.1.1.1
  not_meta c hc := (isIdChar_cases (p.isIdChar_of_mem hc)).1
  not_blank c hc := (isIdChar_cases (p.isIdChar_of_mem hc)).2.1

theorem asciiLower (p : PartitionId) : p.str.asciiLower = p.str := by
  have h : ∀ c ∈ p.str, c.toLower = c := fun c hc => (isIdChar_cases (p.isIdChar_of_mem hc)).2.2
  rw [Str.asciiLower]
  exact (List.map_congr_left h).trans (List.map_id _)

end PartitionId

def Dn.below (base : Dn) (cn : Str) : Dn := ⟨⟨[⟨"cn", cn⟩]⟩ :: base.rdns⟩

variable {v w : Str} {base b d : Dn}

namespace Word

theorem trimmed (h : Word v) : Str.Trimmed v where
  head c hc := h.not_blank c (List.mem_of_mem_head? hc)
  last c hc := h.not_blank c (List.mem_of_getLast? hc)

theorem escapeValue (h : Word v) : escapeValue v = v := by
  have hspace : ∀ c ∈ v, c ≠ ' ' := by
    rintro c hc rfl
    cases h.not_blank ' ' hc
  refine escapeFrom_of_not_special (fun c hc => ?_)
    (fun _ c hc => hspace c (List.mem_of_mem_head? hc)) fun c hc => hspace c (List.mem_of_getLast? hc)
  by_contra hs
  exact h.not_meta c hc (metacharacter_of_isSpecial (by simpa using hs))

theorem normValue (h : Word v) (attr : Str) : Ava.normValue ⟨attr, v⟩ = v.asciiLower := by
  rw [Ava.normValue, Str.trim_of_trimmed h.trimmed]

end Word

theorem join_concat_inj {c : Char} {ps qs : List Str} {x y : Str} (hx : c ∉ x) (hy : c ∉ y)
    (h : Str.join c (ps ++ [x]) = Str.join c (qs ++ [y])) : x = y ∧ Str.join c ps = Str.join c qs := by
  by_cases hps : ps = []
  · subst hps
    by_cases hqs : qs = []
    · subst hqs
      simpa using h
    · rw [Str.join_append hqs (by simp), List.nil_append, Str.join_singleton, Str.join_singleton] at h
      exact absurd (h ▸ List.mem_append_right _ List.mem_cons_self) hx
  · by_cases hqs : qs = []
    · subst hqs
      rw [Str.join_append hps (by simp), List.nil_append, Str.join_singleton, Str.join_singleton] at h
      exact absurd (h ▸ List.mem_append_right _ List.mem_cons_self) hy
    · rw [Str.join_append hps (by simp), Str.join_append hqs (by simp), Str.join_singleton,
        Str.join_singleton] at h
      have hrev := congrArg List.reverse h
      simp only [List.reverse_append, List.reverse_cons, List.append_assoc, List.singleton_append]
        at hrev
      obtain ⟨hxy, hpq⟩ := (Str.append_sep_inj (by simpa using hx) (by simpa using hy)).mp hrev
      exact ⟨List.reverse_injective hxy, List.reverse_injective hpq⟩

structure PlainType (attr : Str) : Prop where
  wf : ∀ v, Ava.Wf ⟨attr, v⟩
  closed : after false attr = false
  slash : '/' ∉ attr

theorem plainType_of_all {attr : Str} (hne : attr ≠ []) (hlower : attr.asciiLower = attr)
    (hall : attr.all (fun c => !metacharacters.contains c && !Str.isWhitespace c) = true) :
    PlainType attr := by
  have hplain : ∀ c ∈ attr, c ∉ metacharacters ∧ Str.isWhitespace c = false := by
    simpa [List.all_eq_true] using hall
  have hmeta : ∀ c ∈ metacharacters, c ∉ attr := fun c hc hmem => (hplain c hmem).1 hc
  refine ⟨fun v => ⟨hne, ⟨?_, ?_⟩, hlower, ?_⟩, after_of_not_mem (hmeta _ (by decide)),
    hmeta _ (by decide)⟩
  · exact fun c hc => (hplain c (List.mem_of_mem_head? hc)).2
  · exact fun c hc => (hplain c (List.mem_of_getLast? hc)).2
  · intro c hc
    refine guards_of_not_mem (hmeta c ?_) false
    simp only [List.mem_cons, List.not_mem_nil, or_false] at hc
    rcases hc with rfl | rfl | rfl <;> decide

theorem plainType_cn : PlainType "cn" := plainType_of_all nofun rfl rfl

theorem plainType_dc : PlainType "dc" := plainType_of_all nofun rfl rfl

def Dn.Worded (d : Dn) : Prop :=
  ∀ r ∈ d.rdns, ∃ attr v, r = ⟨[⟨attr, v⟩]⟩ ∧ PlainType attr ∧ Word v

namespace Dn.Worded

theorem wf (h : d.Worded) : d.Wf := by
  intro r hr
  obtain ⟨attr, v, rfl, hattr, -⟩ := h r hr
  exact ⟨nofun, List.pairwise_singleton _ _, by simpa using hattr.wf v⟩

theorem parse_display (h : d.Worded) : parse d.display = .ok d := by
  by_cases hne : d.rdns = []
  · obtain ⟨rdns⟩ := d
    obtain rfl : rdns = [] := hne
    rfl
  · rw [parse_eq_ok_of_not_blank (h.wf.not_blank_display hne) [], h.wf.splitUnescaped_display hne,
      List.forall₂_map_left_iff, List.forall₂_same]
    intro r hr
    rw [(h.wf r hr).parseRdn_display]
    obtain ⟨attr, v, rfl, hattr, hv⟩ := h r hr
    refine ⟨by simpa using hattr.closed, ?_⟩
    have hreread : Ava.reread ⟨attr, v⟩ = ⟨attr, v⟩ := by
      rw [Ava.reread, hv.escapeValue, Str.trim_of_trimmed hv.trimmed, unescape_of_literal]
      exact literal_of_not_mem fun hmem => hv.not_meta _ hmem (by decide)
    simp [hreread]

theorem below (h : d.Worded) (hv : Word v) : (d.below v).Worded :=
  List.forall_mem_cons.mpr ⟨⟨_, _, rfl, plainType_cn, hv⟩, h⟩

end Dn.Worded

theorem Word.parse (hv : Word v) : Dn.parse ("cn=" ++ v) = .ok (Dn.root.below v) := by
  have hworded : (Dn.root.below v).Worded := Dn.Worded.below nofun hv
  have hdisplay : (Dn.root.below v).display = "cn=" ++ v := by
    rw [Dn.display, Dn.below, Dn.root, List.map_singleton, Str.join_singleton, Rdn.display_eq,
      List.map_singleton, Str.join_singleton, Ava.display, hv.escapeValue]
    rfl
  rw [← hdisplay]
  exact hworded.parse_display

theorem Word.closed (hv : Word v) : after false ("cn=" ++ v) = false := by
  refine after_of_not_mem fun hmem => ?_
  cases List.mem_append.mp hmem with
  | inl h => revert h; decide
  | inr h => exact hv.not_meta _ h (by decide)

theorem Dn.parse_below (hv : Word v) (hbase : base.Wf) :
    parse ("cn=" ++ v ++ ',' :: base.display) = .ok d ↔
      base.rdns ≠ [] ∧ ∃ b, parse base.display = .ok b ∧ d = b.below v := by
  have hblank : ¬ Str.Blank ("cn=" ++ v) := fun h => absurd (h 'c' (by simp [Str.ofString])) (by decide)
  by_cases hne : base.rdns = []
  · refine iff_of_false (fun h => ?_) fun h => h.1 hne
    rw [parse_eq_ok_of_not_blank (not_blank_prefixed _ _) [],
      splitUnescaped_append (by decide) hv.closed] at h
    have hdisplay : base.display = [] := by rw [display, hne]; rfl
    rw [hdisplay, Lists.forall₂_append_left_iff] at h
    obtain ⟨_, _, -, h, -⟩ := h
    cases h with
    | cons h _ => cases h
  · rw [parse_prefixed hblank hv.closed hbase hne, hv.parse]
    constructor
    · rintro ⟨a, b, ha, hb, rfl⟩
      cases ha
      exact ⟨hne, b, hb, rfl⟩
    · rintro ⟨-, b, hb, rfl⟩
      exact ⟨_, b, rfl, hb, rfl⟩

theorem Dn.reversedComponents_below (hv : Word v) (d : Dn) :
    (d.below v).reversedComponents = d.reversedComponents ++ ["cn=" ++ v.asciiLower] := by
  have hnorm : Rdn.normalizedString ⟨[⟨"cn", v⟩]⟩ = "cn=" ++ v.asciiLower := by
    rw [Rdn.normalizedString_eq, List.map_singleton, Str.join_singleton, Ava.keyText, hv.normValue]
    rfl
  rw [reversedComponents, below, List.reverse_cons, List.map_append, List.map_singleton, hnorm]
  rfl

theorem Key.entryKey_below_inj {p q : PartitionId} (hv : Word v) (hw : Word w)
    (h : entryKey p (d.below v) = entryKey q (b.below w)) :
    p = q ∧ v.asciiLower = w.asciiLower ∧ d.path = b.path := by
  obtain ⟨rfl, hpath⟩ := Key.entryKey_inj.mp h
  have hslash : ∀ u, Word u → '/' ∉ ("cn=" : Str) ++ u.asciiLower := by
    intro u hu hmem
    cases List.mem_append.mp hmem with
    | inl h => revert h; decide
    | inr h => exact hu.not_meta _ ((Str.mem_asciiLower_iff (by decide)).mp h) (by decide)
  rw [Dn.path, Dn.path, Dn.reversedComponents_below hv, Dn.reversedComponents_below hw] at hpath
  obtain ⟨hlast, hinit⟩ := join_concat_inj (hslash v hv) (hslash w hw) hpath
  exact ⟨rfl, List.append_cancel_left hlast, hinit⟩

end IronDirectory.Naming
