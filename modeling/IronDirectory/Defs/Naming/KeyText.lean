import IronDirectory.Defs.Naming.DnLaws
import IronDirectory.Defs.Naming.KeyLaws

/-! The text of a storage key, and the names that can be read back from it.
The key joins folded values without escaping them; the reader splits at
slashes and parses what it gets with the escape rules of names. -/

namespace IronDirectory.Naming

open Base Escape Lists Outcome

def Ava.keyText (a : Ava) : Str := a.attr ++ '=' :: a.normValue

theorem Rdn.normalizedString_eq (r : Rdn) :
    r.normalizedString = Str.join '+' (r.avas.map Ava.keyText) := rfl

def commaForm (suffix : Str) : Str := Str.join ',' (suffix.splitOn '/').reverse

/-- An attribute type and folded value that a key spells as the parser would
read them: nothing in the value is a delimiter or starts an escape. -/
@[mk_iff]
structure LegibleAva (a : Str × Str) : Prop where
  attr_closed : after false a.1 = false
  attr_slash : '/' ∉ a.1
  value_plain : ∀ c ∈ ['/', ',', '+'], c ∉ a.2
  value_literal : Literal a.2

/-- A backslash is only harmless as the last character of the whole text. -/
@[mk_iff]
structure Dn.Legible (d : Dn) : Prop where
  avas : ∀ a ∈ d.norm.flatten, LegibleAva a
  inner : ∀ a ∈ d.norm.flatten.dropLast, '\\' ∉ a.2

instance LegibleAva.decidable (a : Str × Str) : Decidable (LegibleAva a) :=
  haveI : Decidable (∀ c ∈ ['/', ',', '+'], c ∉ a.2) := List.decidableBAll _ _
  decidable_of_iff' _ (legibleAva_iff a)

instance Dn.Legible.decidable (d : Dn) : Decidable d.Legible :=
  decidable_of_iff' _ (Dn.legible_iff d)

theorem Dn.Legible.congr {d e : Dn} (h : d.Same e) : d.Legible ↔ e.Legible := by
  constructor
  · intro hd
    exact ⟨h ▸ hd.avas, h ▸ hd.inner⟩
  · intro he
    exact ⟨h.symm ▸ he.avas, h.symm ▸ he.inner⟩

theorem Ava.trimmed_normValue (a : Ava) : Str.Trimmed a.normValue :=
  (Str.trimmed_trim a.value).asciiLower

theorem Ava.Wf.trimmed_keyText {a : Ava} (h : a.Wf) : Str.Trimmed a.keyText where
  head := by
    intro c hc
    obtain ⟨b, bs, hb⟩ := List.exists_cons_of_ne_nil h.attr_ne_nil
    rw [keyText, hb] at hc
    exact h.attr_trimmed.head c (by rw [hb]; exact hc)
  last := by
    intro c hc
    rw [keyText, List.getLast?_append_cons] at hc
    cases hv : a.normValue with
    | nil =>
      rw [hv] at hc
      obtain rfl : '=' = c := by simpa using hc
      decide
    | cons b bs =>
      refine a.trimmed_normValue.last c ?_
      rw [hv] at hc ⊢
      simpa using hc

def Ava.folded (a : Ava) : Ava := ⟨a.attr, a.normValue⟩

@[simp] theorem Ava.norm_folded (a : Ava) : a.folded.norm = a.norm := by
  have h : a.normValue.trim.asciiLower = a.normValue := by
    rw [Str.trim_of_trimmed a.trimmed_normValue]
    simp [Ava.normValue]
  simp only [Ava.norm, Ava.folded, Prod.mk.injEq, true_and]
  exact h

theorem Ava.Wf.parseAva_keyText {a : Ava} (h : a.Wf) (hl : LegibleAva a.norm) (full : Str) :
    parseAva (Str.trim a.keyText) full = .ok a.folded := by
  rw [Str.trim_of_trimmed h.trimmed_keyText, parseAva_eq_ok]
  refine ⟨a.attr, a.normValue, rfl, h.attr_guards '=' (by simp), hl.attr_closed, ?_, ?_⟩
  · rw [Str.trim_of_trimmed h.attr_trimmed]
    exact h.attr_ne_nil
  · have hu : unescape a.normValue = a.normValue := unescape_of_literal hl.value_literal
    rw [Str.trim_of_trimmed h.attr_trimmed, Str.trim_of_trimmed a.trimmed_normValue,
      h.attr_lower, hu]
    rfl

theorem Ava.le_folded (a b : Ava) : a.folded.le b.folded = a.le b := by
  have h : ∀ a : Ava, a.folded.normValue = a.normValue := fun a => congrArg Prod.snd a.norm_folded
  simp only [Ava.le, h]
  rfl

theorem Ava.keyText_ne_nil (a : Ava) : a.keyText ≠ [] := by simp [keyText]

theorem Rdn.Wf.normalizedString_ne_nil {r : Rdn} (h : r.Wf) : r.normalizedString ≠ [] := by
  obtain ⟨a, avas, ha⟩ := List.exists_cons_of_ne_nil h.nonempty
  rw [normalizedString_eq, ha]
  exact Str.join_ne_nil a.keyText_ne_nil

theorem Rdn.Wf.trimmed_normalizedString {r : Rdn} (h : r.Wf) :
    Str.Trimmed r.normalizedString := by
  apply Str.trimmed_join
  simp only [List.forall_mem_map]
  intro a ha
  exact ⟨(h.avas a ha).trimmed_keyText, a.keyText_ne_nil⟩

theorem Rdn.Wf.parseRdn_normalizedString {r : Rdn} (h : r.Wf) (hl : ∀ a ∈ r.norm, LegibleAva a)
    (hframe : Framed '+' (r.avas.map Ava.keyText)) (full : Str) :
    parseRdn full r.normalizedString = .ok ⟨r.avas.map Ava.folded⟩ := by
  have hsplit : splitUnescaped r.normalizedString '+' = r.avas.map Ava.keyText :=
    splitUnescaped_join (by decide) hframe
  have hsorted : (r.avas.map Ava.folded).Pairwise fun a b => a.le b = true := by
    rw [List.pairwise_map]
    simpa only [Ava.le_folded] using h.sorted
  rw [parseRdn_eq_ok, Str.trim_of_trimmed h.trimmed_normalizedString, hsplit]
  refine ⟨h.normalizedString_ne_nil, r.avas.map Ava.folded, ?_, ?_⟩
  · rw [List.forall₂_map_left_iff, List.forall₂_map_right_iff, List.forall₂_same]
    intro a ha
    exact (h.avas a ha).parseAva_keyText (hl a.norm (List.mem_map_of_mem ha)) full
  · rw [hsorted.insertionSort_eq]

def Dn.folded (d : Dn) : Dn := ⟨d.rdns.map fun r => ⟨r.avas.map Ava.folded⟩⟩

theorem Dn.folded_same (d : Dn) : d.folded.Same d := by
  simp [Dn.folded, Dn.Same, Dn.norm, Rdn.norm, Function.comp_def]

theorem Dn.folded_congr {d e : Dn} (h : d.Same e) : d.folded = e.folded := by
  have hfolded : ∀ d : Dn,
      d.folded = ⟨d.norm.map fun avas => ⟨avas.map fun a => ⟨a.1, a.2⟩⟩⟩ := by
    intro d
    rw [folded, norm, List.map_map]
    refine congrArg Dn.mk (List.map_congr_left fun r _ => ?_)
    rw [Function.comp_apply, Rdn.norm, List.map_map]
    rfl
  rw [hfolded, hfolded, h]

def Dn.keyForm (d : Dn) : Str := Str.join ',' (d.rdns.map Rdn.normalizedString)

theorem Dn.commaForm_eq {d : Dn} (hne : d.rdns ≠ [])
    (hslash : ∀ r ∈ d.rdns, '/' ∉ r.normalizedString) :
    commaForm d.path = d.keyForm := by
  have hsplit : Str.splitOn d.path '/' = d.reversedComponents := by
    apply List.splitOn_intercalate
    · simpa [Dn.reversedComponents] using hslash
    · simpa [Dn.reversedComponents] using hne
  rw [commaForm, hsplit, Dn.reversedComponents, ← List.map_reverse, List.reverse_reverse]
  rfl

theorem Dn.Wf.parse_keyForm {d : Dn} (h : d.Wf) (hne : d.rdns ≠ [])
    (hl : ∀ a ∈ d.norm.flatten, LegibleAva a)
    (hplus : ∀ r ∈ d.rdns, Framed '+' (r.avas.map Ava.keyText))
    (hcomma : Framed ',' (d.rdns.map Rdn.normalizedString)) :
    Dn.parse d.keyForm = .ok d.folded := by
  have htrim : Str.trim d.keyForm = d.keyForm := by
    apply Str.trim_of_trimmed
    apply Str.trimmed_join
    simp only [List.forall_mem_map]
    intro r hr
    exact ⟨(h r hr).trimmed_normalizedString, (h r hr).normalizedString_ne_nil⟩
  have hsplit : splitUnescaped d.keyForm ',' = d.rdns.map Rdn.normalizedString :=
    splitUnescaped_join (by decide) hcomma
  rw [Dn.parse_eq_ok, htrim, hsplit]
  refine .inr ⟨?_, ?_⟩
  · obtain ⟨r, rdns, hr⟩ := List.exists_cons_of_ne_nil hne
    rw [keyForm, hr]
    exact Str.join_ne_nil (h r (by simp [hr])).normalizedString_ne_nil
  · rw [folded, List.forall₂_map_left_iff, List.forall₂_map_right_iff, List.forall₂_same]
    intro r hr
    apply (h r hr).parseRdn_normalizedString _ (hplus r hr)
    intro a ha
    exact hl a (List.mem_flatten.mpr ⟨r.norm, List.mem_map_of_mem hr, ha⟩)

theorem Ava.after_keyText {a : Ava} (h : LegibleAva a.norm) :
    after false a.keyText = after false a.normValue := by
  have hclosed : after false a.attr = false := h.attr_closed
  rw [keyText, after_append, hclosed, after_cons_of_ne (by decide)]

theorem Ava.Wf.guards_keyText {a : Ava} (h : a.Wf) (hl : LegibleAva a.norm) {c : Char}
    (hc : c ∈ [',', '+']) : Guards c false a.keyText := by
  have hclosed : after false a.attr = false := hl.attr_closed
  have hvalue : c ∉ a.normValue := hl.value_plain c (List.mem_cons_of_mem _ hc)
  have hne : '=' ≠ c := by
    rintro rfl
    simp at hc
  rw [keyText, guards_append, hclosed, guards_cons_of_ne (by decide)]
  refine ⟨h.attr_guards c ?_, hne, guards_of_not_mem hvalue false⟩
  simp only [List.mem_cons, List.not_mem_nil, or_false] at hc ⊢
  rcases hc with hc | hc <;> simp [hc]

theorem Rdn.slash_not_mem {r : Rdn} (hl : ∀ a ∈ r.norm, LegibleAva a) :
    '/' ∉ r.normalizedString := by
  intro h
  obtain h | ⟨p, hp, h⟩ := Str.mem_join h
  · exact absurd h (by decide)
  · obtain ⟨a, ha, rfl⟩ := List.mem_map.mp hp
    have hla := hl a.norm (List.mem_map_of_mem ha)
    rw [List.mem_append, List.mem_cons] at h
    rcases h with h | h | h
    · exact hla.attr_slash h
    · exact absurd h (by decide)
    · exact hla.value_plain '/' (by simp) h

theorem Rdn.Wf.norm_ne_nil {r : Rdn} (h : r.Wf) : r.norm ≠ [] := by
  simpa [Rdn.norm] using h.nonempty

theorem Dn.Wf.norm_ne_nil {d : Dn} (h : d.Wf) : ∀ l ∈ d.norm, l ≠ [] := by
  simp only [Dn.norm, List.forall_mem_map]
  intro r hr
  exact (h r hr).norm_ne_nil

section Legible

variable {d : Dn}

theorem Dn.Legible.of_mem (hl : d.Legible) {r : Rdn} (hr : r ∈ d.rdns) :
    ∀ a ∈ r.norm, LegibleAva a := by
  intro a ha
  exact hl.avas a (List.mem_flatten.mpr ⟨r.norm, List.mem_map_of_mem hr, ha⟩)

theorem Dn.Legible.framed_plus (h : d.Wf) (hl : d.Legible) {r : Rdn} (hr : r ∈ d.rdns) :
    Framed '+' (r.avas.map Ava.keyText) where
  nonempty := by simpa using (h r hr).nonempty
  guards := by
    simp only [List.forall_mem_map]
    intro a ha
    exact ((h r hr).avas a ha).guards_keyText (hl.of_mem hr a.norm (List.mem_map_of_mem ha))
      (by simp)
  closed := by
    rw [← List.map_dropLast]
    simp only [List.forall_mem_map]
    intro a ha
    have hinner := ((forall_mem_dropLast_flatten h.norm_ne_nil).mp hl.inner).1 r.norm
      (List.mem_map_of_mem hr) a.norm
    rw [Rdn.norm, ← List.map_dropLast] at hinner
    have hmem := List.mem_map_of_mem (f := Ava.norm) (List.mem_of_mem_dropLast ha)
    rw [Ava.after_keyText (hl.of_mem hr a.norm hmem)]
    exact after_of_not_mem (hinner (List.mem_map_of_mem ha))

theorem Dn.Legible.framed_comma (h : d.Wf) (hl : d.Legible) (hne : d.rdns ≠ []) :
    Framed ',' (d.rdns.map Rdn.normalizedString) where
  nonempty := by simpa using hne
  guards := by
    simp only [List.forall_mem_map]
    intro r hr
    rw [Rdn.normalizedString_eq, guards_join (by decide) (by decide) (hl.framed_plus h hr)]
    simp only [List.forall_mem_map]
    intro a ha
    exact ((h r hr).avas a ha).guards_keyText (hl.of_mem hr a.norm (List.mem_map_of_mem ha))
      (by simp)
  closed := by
    rw [← List.map_dropLast]
    simp only [List.forall_mem_map]
    intro r hr
    have hmem := List.mem_of_mem_dropLast hr
    have hinner := ((forall_mem_dropLast_flatten h.norm_ne_nil).mp hl.inner).2 r.norm
    rw [Dn.norm, ← List.map_dropLast] at hinner
    rw [Rdn.normalizedString_eq, after_join (by decide) (hl.framed_plus h hmem).nonempty,
      List.getLast_map, Ava.after_keyText]
    · exact after_of_not_mem (hinner (List.mem_map_of_mem hr) _
        (List.mem_map_of_mem (List.getLast_mem _)))
    · exact hl.of_mem hmem _ (List.mem_map_of_mem (List.getLast_mem _))

theorem Dn.Legible.parse_keyForm (h : d.Wf) (hl : d.Legible) : Dn.parse d.keyForm = .ok d.folded := by
  by_cases hne : d.rdns = []
  · rw [Dn.keyForm, Dn.folded, hne]
    rfl
  · exact h.parse_keyForm hne hl.avas (fun r hr => hl.framed_plus h hr) (hl.framed_comma h hne)

theorem Dn.Legible.commaForm_path (hl : d.Legible) : commaForm d.path = d.keyForm := by
  by_cases hne : d.rdns = []
  · rw [Dn.path, Dn.reversedComponents, Dn.keyForm, hne]
    rfl
  · exact Dn.commaForm_eq hne fun r hr => Rdn.slash_not_mem (hl.of_mem hr)

theorem Dn.Legible.reads_back (h : d.Wf) (hl : d.Legible) :
    ∃ e, Dn.parse (commaForm d.path) = .ok e ∧ e.Same d :=
  ⟨d.folded, hl.commaForm_path ▸ hl.parse_keyForm h, d.folded_same⟩

end Legible

/-- A piece of text that the parser takes as it stands, up to case. -/
def Verbatim (u : Str) (a : Ava) : Prop :=
  ∃ raw rest : Str, u = raw ++ '=' :: rest ∧ after false raw = false ∧ Literal rest ∧
    a.norm = (raw.asciiLower, rest.asciiLower)

theorem length_keyText_le {u full : Str} {a : Ava} (h : parseAva (Str.trim u) full = .ok a) :
    a.keyText.length ≤ u.length ∧ (u.length ≤ a.keyText.length → Verbatim u a) := by
  obtain ⟨raw, rest, hu, -, hclosed, -, rfl⟩ := parseAva_eq_ok.mp h
  have hulen := Str.length_trim_le u
  have hraw := Str.length_trim_le raw
  have hrest := Str.length_trim_le rest
  have hunescape := length_unescape_le (Str.trim rest)
  have hvalue := Str.length_trim_le (unescape (Str.trim rest))
  have htrim := congrArg List.length hu
  simp only [List.length_append, List.length_cons] at htrim
  simp only [Ava.keyText, Ava.normValue, List.length_append, List.length_cons,
    Str.length_asciiLower]
  refine ⟨by omega, fun hlen => ⟨raw, rest, ?_, hclosed, ?_, ?_⟩⟩
  · rw [← hu, Str.trim_eq_of_length (by omega)]
  · have hrest' : Str.trim rest = rest := Str.trim_eq_of_length (by omega)
    rw [hrest'] at hvalue hunescape hlen
    exact literal_of_length_unescape (by omega)
  · have hrest' : Str.trim rest = rest := Str.trim_eq_of_length (by omega)
    have hraw' : Str.trim raw = raw := Str.trim_eq_of_length (by omega)
    rw [hrest'] at hvalue hunescape hlen
    have hlit : unescape rest = rest :=
      unescape_of_literal (literal_of_length_unescape (by omega))
    simp only [Ava.norm, Ava.normValue, hrest', hraw', hlit]

theorem Verbatim.keyText {u : Str} {a : Ava} (h : Verbatim u a) : a.keyText = u.asciiLower := by
  obtain ⟨raw, rest, rfl, -, -, hnorm⟩ := h
  rw [Ava.keyText, show a.attr = _ from congrArg Prod.fst hnorm,
    show a.normValue = _ from congrArg Prod.snd hnorm]
  simp [Str.asciiLower]

theorem length_normalizedString (r : Rdn) (h : r.avas ≠ []) :
    r.normalizedString.length + 1 = (r.avas.map fun a => a.keyText.length + 1).sum := by
  rw [Rdn.normalizedString_eq, Str.length_join '+' (by simpa using h), List.map_map]
  rfl

theorem length_normalizedString_le {t full : Str} {r : Rdn} (h : parseRdn full t = .ok r) :
    r.normalizedString.length ≤ t.length ∧ (t.length ≤ r.normalizedString.length →
      ∃ us avas, Framed '+' us ∧ Str.join '+' us = t ∧ List.Forall₂ Verbatim us avas ∧
        r.avas.Perm avas) := by
  obtain ⟨hne, avas, hf, rfl⟩ := parseRdn_eq_ok.mp h
  have hframe : Framed '+' (splitUnescaped (Str.trim t) '+') := framed_splitUnescaped (by decide) _
  have hjoin : Str.join '+' (splitUnescaped (Str.trim t) '+') = Str.trim t :=
    join_splitUnescaped (by decide) _
  have havas : avas ≠ [] := by
    rintro rfl
    exact hframe.nonempty (List.forall₂_nil_right_iff.mp hf)
  have hperm := List.perm_insertionSort (fun a b : Ava => a.le b = true) avas
  have hlen := length_normalizedString ⟨avas.insertionSort fun a b => a.le b⟩
    (fun hnil => havas (List.Perm.nil_eq (hnil ▸ hperm)).symm)
  rw [(hperm.map _).sum_eq] at hlen
  have htlen := Str.length_join '+' hframe.nonempty
  rw [hjoin] at htlen
  have hle : ∀ (u : Str) (a : Ava), parseAva (Str.trim u) full = .ok a →
      a.keyText.length + 1 ≤ u.length + 1 := by
    intro u a hua
    exact Nat.succ_le_succ (length_keyText_le hua).1
  have hsum := sum_le_of_forall₂ hf hle
  have htrim := Str.length_trim_le t
  refine ⟨by omega, fun hge => ?_⟩
  have ht : Str.trim t = t := Str.trim_eq_of_length (by omega)
  have hexact := forall₂_of_sum_le hf hle (by omega)
  refine ⟨_, avas, hframe, hjoin.trans ht, ?_, hperm⟩
  refine hexact.imp fun u a hua => ?_
  exact (length_keyText_le hua.1).2 (Nat.le_of_succ_le_succ hua.2)

theorem length_keyForm (d : Dn) (h : d.rdns ≠ []) :
    d.keyForm.length + 1 = (d.rdns.map fun r => r.normalizedString.length + 1).sum := by
  rw [Dn.keyForm, Str.length_join ',' (by simpa using h), List.map_map]
  rfl

theorem forall₂_of_parse_length {t : Str} {e : Dn} (h : Dn.parse t = .ok e) (hne : e.rdns ≠ [])
    (hlen : t.length ≤ e.keyForm.length) :
    ∃ ts, Framed ',' ts ∧ Str.join ',' ts = t ∧ List.Forall₂ (fun p r =>
      parseRdn t p = .ok r ∧ p.length ≤ r.normalizedString.length) ts e.rdns := by
  obtain ⟨-, rfl⟩ | ⟨-, hf⟩ := Dn.parse_eq_ok.mp h
  · exact absurd rfl hne
  have hframe : Framed ',' (splitUnescaped (Str.trim t) ',') := framed_splitUnescaped (by decide) _
  have hjoin : Str.join ',' (splitUnescaped (Str.trim t) ',') = Str.trim t :=
    join_splitUnescaped (by decide) _
  have htlen := Str.length_join ',' hframe.nonempty
  rw [hjoin] at htlen
  have hle : ∀ (p : Str) (r : Rdn), parseRdn t p = .ok r →
      r.normalizedString.length + 1 ≤ p.length + 1 := by
    intro p r hpr
    exact Nat.succ_le_succ (length_normalizedString_le hpr).1
  have hsum := sum_le_of_forall₂ hf hle
  have hkey := length_keyForm e hne
  have htrim := Str.length_trim_le t
  have ht : Str.trim t = t := Str.trim_eq_of_length (by omega)
  have hexact := forall₂_of_sum_le hf hle (by omega)
  refine ⟨_, hframe, hjoin.trans ht, ?_⟩
  exact hexact.imp fun p r hpr => ⟨hpr.1, Nat.le_of_succ_le_succ hpr.2⟩

section Necessity

variable {us : List Str} {avas : List Ava}

theorem Verbatim.legible {u : Str} {a : Ava} (h : Verbatim u a) (hslash : '/' ∉ u)
    (hcomma : Guards ',' false u) (hplus : Guards '+' false u) : LegibleAva a.norm := by
  obtain ⟨raw, rest, rfl, hclosed, hlit, hnorm⟩ := h
  rw [List.mem_append, List.mem_cons, not_or, not_or] at hslash
  have hrest : ∀ c ∈ [',', '+'], Guards c false (raw ++ '=' :: rest) → c ∉ rest := by
    intro c _ hg
    rw [guards_append, hclosed, guards_cons_of_ne (by decide)] at hg
    exact hlit.not_mem hg.2.2
  rw [hnorm]
  refine ⟨by rw [after_asciiLower, hclosed], ?_, ?_, ?_⟩
  · rw [Str.mem_asciiLower_iff (by decide)]
    exact hslash.1
  · simp only [List.forall_mem_cons, Str.mem_asciiLower_iff (show '/'.isAlpha = false by decide),
      Str.mem_asciiLower_iff (show ','.isAlpha = false by decide),
      Str.mem_asciiLower_iff (show '+'.isAlpha = false by decide)]
    exact ⟨hslash.2.2, hrest ',' (by simp) hcomma, hrest '+' (by simp) hplus, by simp⟩
  · exact hlit.asciiLower

theorem Verbatim.after_keyText {u : Str} {a : Ava} (h : Verbatim u a) :
    after false a.keyText = after false u := by
  rw [h.keyText, after_asciiLower]

theorem countP_open_eq (hf : List.Forall₂ Verbatim us avas) :
    avas.countP (fun a => after false a.keyText) = us.countP fun u => after false u := by
  induction hf with
  | nil => rfl
  | cons h _ ih => simp only [List.countP_cons, h.after_keyText, ih]

theorem Rdn.closed_of_verbatim {r : Rdn} (hframe : Framed '+' us)
    (hjoin : Str.join '+' us = r.normalizedString) (hf : List.Forall₂ Verbatim us avas)
    (hperm : r.avas.Perm avas) :
    (∀ a ∈ r.avas.dropLast, after false a.keyText = false) ∧
      (after false r.normalizedString = false → ∀ a ∈ r.avas, after false a.keyText = false) := by
  have hne : r.avas ≠ [] := by
    intro hnil
    rw [hnil] at hperm
    rw [← hperm.nil_eq, List.forall₂_nil_right_iff] at hf
    exact hframe.nonempty hf
  have hcount : r.avas.countP (fun a => after false a.keyText) ≤ 1 := by
    rw [hperm.countP_eq, countP_open_eq hf]
    exact countP_le_one_of_dropLast hframe.closed
  have hlast : after false r.normalizedString = after false (r.avas.getLast hne).keyText := by
    rw [Rdn.normalizedString_eq, after_join (by decide) (by simpa using hne), List.getLast_map]
  have hall : after false r.normalizedString = false →
      ∀ a ∈ r.avas, after false a.keyText = false := by
    intro hclosed
    have hus : us.countP (fun u => after false u) = 0 := by
      rw [← hjoin, after_join (by decide) hframe.nonempty] at hclosed
      rw [List.countP_eq_zero, ← List.dropLast_append_getLast hframe.nonempty]
      intro u hu
      rw [List.mem_append, List.mem_singleton] at hu
      cases hu with
      | inl hu => simp [hframe.closed u hu]
      | inr hu => simp [hu, hclosed]
    rw [← countP_open_eq hf, ← hperm.countP_eq, List.countP_eq_zero] at hus
    simpa using hus
  refine ⟨?_, hall⟩
  cases hopen : after false r.normalizedString with
  | true => exact not_of_mem_dropLast hcount hne (hlast ▸ hopen)
  | false => exact fun a ha => hall hopen a (List.mem_of_mem_dropLast ha)

end Necessity

theorem length_join_reverse (c c' : Char) (ps : List Str) :
    (Str.join c ps.reverse).length = (Str.join c' ps).length := by
  by_cases h : ps = []
  · simp [h]
  · have h₁ := Str.length_join c (List.reverse_ne_nil_iff.mpr h)
    have h₂ := Str.length_join c' h
    rw [List.map_reverse, List.sum_reverse] at h₁
    omega

theorem length_commaForm (s : Str) : (commaForm s).length = s.length := by
  rw [commaForm, length_join_reverse ',' '/']
  exact congrArg List.length (List.intercalate_splitOn '/')

theorem slash_not_mem_commaForm (s : Str) : '/' ∉ commaForm s := by
  intro h
  obtain h | ⟨p, hp, h⟩ := Str.mem_join h
  · exact absurd h (by decide)
  · exact Str.not_mem_of_mem_splitOn (List.mem_reverse.mp hp) h

theorem Dn.length_path (d : Dn) : d.path.length = d.keyForm.length := by
  rw [Dn.path, Dn.reversedComponents, List.map_reverse, length_join_reverse '/' ',']
  rfl

theorem Dn.legible_of_parse {e : Dn}
    (h : Dn.parse (commaForm e.path) = .ok e) : e.Legible := by
  by_cases hne : e.rdns = []
  · constructor <;> simp [Dn.norm, hne]
  obtain ⟨ts, hframe, hjoin, hf⟩ := forall₂_of_parse_length h hne
    (by rw [length_commaForm, Dn.length_path])
  have hslash : ∀ t ∈ ts, '/' ∉ t := by
    intro t ht hm
    have := Str.mem_join_of_mem (c := ',') ht hm
    rw [hjoin] at this
    exact slash_not_mem_commaForm _ this
  have hleg : ∀ r ∈ e.rdns, ∀ a ∈ r.norm, LegibleAva a := by
    intro r hr
    simp only [Rdn.norm, List.forall_mem_map]
    intro a ha
    obtain ⟨t, ht, hparse, hlen⟩ := exists_of_forall₂_mem hf hr
    obtain ⟨us, avas, hus, rfl, hverb, hperm⟩ := (length_normalizedString_le hparse).2 hlen
    obtain ⟨u, hu, hua⟩ := exists_of_forall₂_mem hverb (hperm.mem_iff.mp ha)
    refine hua.legible (fun hm => hslash _ ht (Str.mem_join_of_mem hu hm)) ?_ (hus.guards u hu)
    exact (guards_join (by decide) (by decide) hus).mp (hframe.guards _ ht) u hu
  have hts : ts = e.rdns.map Rdn.normalizedString := by
    apply Str.join_inj_of_length (c := ',')
    · rw [List.map_map, ← List.forall₂_eq_eq_eq, List.forall₂_map_left_iff,
        List.forall₂_map_right_iff]
      exact hf.imp fun t r htr => le_antisymm htr.2 (length_normalizedString_le htr.1).1
    · rw [hjoin, Dn.commaForm_eq hne fun r hr => Rdn.slash_not_mem (hleg r hr)]
      rfl
  subst hts
  rw [List.forall₂_map_left_iff, List.forall₂_same] at hf
  have hclosed : ∀ r ∈ e.rdns, (∀ a ∈ r.avas.dropLast, after false a.keyText = false) ∧
      (after false r.normalizedString = false →
        ∀ a ∈ r.avas, after false a.keyText = false) := by
    intro r hr
    obtain ⟨us, avas, hus, hjoin', hverb, hperm⟩ :=
      (length_normalizedString_le (hf r hr).1).2 (hf r hr).2
    exact Rdn.closed_of_verbatim hus hjoin' hverb hperm
  have hplain : ∀ r ∈ e.rdns, ∀ a ∈ r.avas, after false a.keyText = false →
      '\\' ∉ a.normValue := by
    intro r hr a ha hopen
    have hla := hleg r hr a.norm (List.mem_map_of_mem ha)
    rw [Ava.after_keyText hla] at hopen
    exact hla.value_literal.not_mem_of_closed hopen
  refine ⟨?_, ?_⟩
  · intro a ha
    obtain ⟨l, hl, hal⟩ := List.mem_flatten.mp ha
    obtain ⟨r, hr, rfl⟩ := List.mem_map.mp hl
    exact hleg r hr a hal
  · rw [forall_mem_dropLast_flatten (Dn.parse_wf h).norm_ne_nil]
    refine ⟨?_, ?_⟩
    · simp only [Dn.norm, List.forall_mem_map]
      intro r hr
      rw [Rdn.norm, ← List.map_dropLast]
      simp only [List.forall_mem_map]
      intro a ha
      exact hplain r hr a (List.mem_of_mem_dropLast ha) ((hclosed r hr).1 a ha)
    · rw [Dn.norm, ← List.map_dropLast]
      simp only [List.forall_mem_map, Rdn.norm]
      intro r hr a ha
      have hmem := List.mem_of_mem_dropLast hr
      refine hplain r hmem a ha ((hclosed r hmem).2 ?_ a ha)
      apply hframe.closed
      rw [← List.map_dropLast]
      exact List.mem_map_of_mem hr

theorem Dn.Wf.reads_back_iff {d : Dn} (h : d.Wf) :
    (∃ e, Dn.parse (commaForm d.path) = .ok e ∧ e.Same d) ↔
      d.Legible := by
  constructor
  · rintro ⟨e, he, hsame⟩
    rw [← Key.path_congr hsame] at he
    exact (Dn.Legible.congr hsame).mp (Dn.legible_of_parse he)
  · exact fun hl => hl.reads_back h

end IronDirectory.Naming
