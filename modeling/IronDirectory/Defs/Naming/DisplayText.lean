import IronDirectory.Defs.Naming.AvaText
import IronDirectory.Defs.Naming.KeyText

namespace IronDirectory.Naming

open Base Escape Lists

section Spelling

/-- Text that spells a value with some characters escaped, none of them as
hexadecimal. -/
inductive Spells : Str → Str → Prop
  | nil : Spells [] []
  | plain {c : Char} {t v : Str} : c ≠ '\\' → Spells t v → Spells (c :: t) (c :: v)
  | escaped {c : Char} {t v : Str} : Str.hexDigit? c = none → Spells t v →
    Spells ('\\' :: c :: t) (c :: v)

theorem unescape_escaped {c : Char} (hc : Str.hexDigit? c = none) (t : Str) :
    unescape ('\\' :: c :: t) = c :: unescape t := by
  cases t with
  | nil => rfl
  | cons d t => simp [unescape, hc]

variable {s t v : Str}

theorem Spells.unescape_append (h : Spells t v) (s : Str) :
    unescape (t ++ s) = v ++ unescape s := by
  induction h with
  | nil => rfl
  | plain hc _ ih => rw [List.cons_append, unescape_cons_of_ne hc, ih, List.cons_append]
  | escaped hc _ ih =>
    rw [List.cons_append, List.cons_append, unescape_escaped hc, ih, List.cons_append]

theorem Spells.unescape (h : Spells t v) : Naming.unescape t = v := by
  have happend := h.unescape_append []
  rwa [List.append_nil, Naming.unescape, List.append_nil] at happend

theorem Spells.closed (h : Spells t v) : after false t = false := by
  induction h with
  | nil => rfl
  | plain hc _ ih => rw [after_cons_of_ne hc, ih]
  | escaped _ _ ih => exact ih

theorem Spells.eq_of_not_mem (h : Spells t v) (ht : '\\' ∉ t) : v = t := by
  induction h with
  | nil => rfl
  | plain _ _ ih => rw [ih fun hm => ht (List.mem_cons_of_mem _ hm)]
  | escaped _ _ _ => exact absurd List.mem_cons_self ht

theorem Spells.split (h : Spells (s ++ t) v) (hs : after false s = false) :
    ∃ a b, v = a ++ b ∧ Spells s a ∧ Spells t b := by
  generalize hst : s ++ t = st at h
  induction h generalizing s with
  | nil =>
    obtain ⟨rfl, rfl⟩ := List.append_eq_nil_iff.mp hst
    exact ⟨[], [], rfl, .nil, .nil⟩
  | @plain c t' v' hc hspells ih =>
    cases s with
    | nil =>
      subst hst
      exact ⟨[], _, rfl, .nil, .plain hc hspells⟩
    | cons d s =>
      obtain ⟨rfl, htail⟩ := List.cons.inj hst
      rw [after_cons_of_ne hc] at hs
      obtain ⟨a, b, rfl, ha, hb⟩ := ih hs htail
      exact ⟨_ :: a, b, rfl, .plain hc ha, hb⟩
  | @escaped c t' v' hc hspells ih =>
    cases s with
    | nil =>
      subst hst
      exact ⟨[], _, rfl, .nil, .escaped hc hspells⟩
    | cons d s =>
      obtain ⟨rfl, htail⟩ := List.cons.inj hst
      cases s with
      | nil => cases hs
      | cons d' s =>
        obtain ⟨rfl, hrest⟩ := List.cons.inj htail
        have hs' : after false s = false := hs
        obtain ⟨a, b, rfl, ha, hb⟩ := ih hs' hrest
        exact ⟨_ :: a, b, rfl, .escaped hc ha, hb⟩

theorem Spells.split_open (h : Spells (s ++ t) v) (hs : after false s = true) :
    ∃ s' c t' a b, s = s' ++ ['\\'] ∧ t = c :: t' ∧ v = a ++ c :: b ∧ Spells s' a ∧
      Spells t' b := by
  obtain ⟨s', rfl⟩ := List.getLast?_eq_some_iff.mp (getLast?_of_open hs)
  have hs' : after false s' = false := by
    rw [after_append] at hs
    cases hclosed : after false s' with
    | false => rfl
    | true =>
      rw [hclosed] at hs
      cases hs
  rw [List.append_assoc] at h
  obtain ⟨a, b, rfl, ha, hb⟩ := h.split hs'
  cases t with
  | nil => cases hb with
    | plain hc _ => exact absurd rfl hc
  | cons c t' =>
    cases hb with
    | plain hc _ => exact absurd rfl hc
    | escaped _ hb => exact ⟨s', c, t', a, _, rfl, rfl, rfl, ha, hb⟩

end Spelling

section Reread

variable {t v : Str}

theorem Spells.trim_of_closed (h : Spells t v) (hclosed : after false (Str.trim t) = false) :
    Str.trim (Naming.unescape (Str.trim t)) = Str.trim v := by
  obtain ⟨w, w', hw, hw', hpad⟩ := Str.exists_pad t
  have hblank : ∀ {w : Str}, w.Blank → '\\' ∉ w := fun hw hm => absurd (hw _ hm) (by decide)
  rw [hpad] at h
  obtain ⟨a, b, rfl, ha, hb⟩ := h.split (after_of_not_mem (hblank hw))
  obtain ⟨m, c, rfl, hm, hc⟩ := hb.split hclosed
  rw [ha.eq_of_not_mem (hblank hw), hc.eq_of_not_mem (hblank hw'), hm.unescape,
    Str.trim_blank_append hw, Str.trim_append_blank hw']

theorem Spells.length_trim_of_open (h : Spells t v) (hopen : after false (Str.trim t) = true) :
    (Str.trim v).length < (Str.trim (Naming.unescape (Str.trim t))).length := by
  obtain ⟨w, w', hw, hw', hpad⟩ := Str.exists_pad t
  have hblank : ∀ {w : Str}, w.Blank → '\\' ∉ w := fun hw hm => absurd (hw _ hm) (by decide)
  rw [hpad] at h
  obtain ⟨a, b, rfl, ha, hb⟩ := h.split (after_of_not_mem (hblank hw))
  obtain ⟨s', c, t', x, y, hs', rfl, rfl, hx, hy⟩ := hb.split_open hopen
  have hrest : Str.Blank t' := fun c hc => hw' c (List.mem_cons_of_mem _ hc)
  rw [hs', hx.unescape_append, ha.eq_of_not_mem (hblank hw), hy.eq_of_not_mem (hblank hrest),
    Str.trim_blank_append hw, Str.trim_append_blank hw']
  exact Str.length_trim_lt (by decide) x []

end Reread

section Escaped

theorem hexDigit?_of_escaped {edge : Bool} {c : Char}
    (h : (isSpecial c || (c == ' ' && edge)) = true) : Str.hexDigit? c = none := by
  simp only [isSpecial, Bool.or_eq_true, Bool.and_eq_true, beq_iff_eq] at h
  obtain ((((((((rfl | rfl) | rfl) | rfl) | rfl) | rfl) | rfl) | rfl) | rfl) | ⟨rfl, -⟩ := h <;>
    decide

theorem Spells.escapeChar_append {t v : Str} (h : Spells t v) (edge : Bool) (c : Char) :
    Spells (escapeChar edge c ++ t) (c :: v) := by
  rw [escapeChar]
  split
  · next hc => exact .escaped (hexDigit?_of_escaped hc) h
  · next hc =>
    refine .plain ?_ h
    rintro rfl
    exact hc rfl

theorem spells_escapeFrom (first : Bool) (v : Str) : Spells (escapeFrom first v) v := by
  induction v generalizing first with
  | nil => exact .nil
  | cons c cs ih => exact (ih false).escapeChar_append _ c

def escapeInner (first : Bool) : Str → Str
  | [] => []
  | c :: cs => escapeChar first c ++ escapeInner false cs

theorem escapeFrom_concat (first : Bool) (v : Str) (c : Char) :
    escapeFrom first (v ++ [c]) = escapeInner first v ++ escapeChar true c := by
  induction v generalizing first with
  | nil => simp [escapeFrom, escapeInner]
  | cons d v ih =>
    have hnotLast : (v ++ [c]).isEmpty = false := by simp
    rw [List.cons_append, escapeFrom, ih, escapeInner, List.append_assoc, hnotLast, Bool.or_false]

theorem escapeInner_concat (first : Bool) (v : Str) (c : Char) :
    escapeInner first (v ++ [c]) = escapeInner first v ++ escapeChar (first && v.isEmpty) c := by
  induction v generalizing first with
  | nil => simp [escapeInner]
  | cons d v ih =>
    rw [List.cons_append, escapeInner, ih, escapeInner, List.append_assoc]
    simp

theorem spells_escapeInner (first : Bool) (v : Str) : Spells (escapeInner first v) v := by
  induction v generalizing first with
  | nil => exact .nil
  | cons c cs ih => exact (ih false).escapeChar_append _ c

theorem after_trim_concat {c : Char} (hc : Str.isWhitespace c = false) (s : Str) :
    after false (Str.trim (s ++ [c])) = after false (s ++ [c]) := by
  have hdrop : after false (s.dropWhile Str.isWhitespace) = after false s := by
    have hblank : '\\' ∉ s.takeWhile Str.isWhitespace := fun hm =>
      absurd (List.mem_takeWhile_imp hm) (by decide)
    conv_rhs => rw [← List.takeWhile_append_dropWhile (p := Str.isWhitespace) (l := s)]
    rw [after_append, after_of_not_mem hblank]
  rw [Str.trim_append_singleton hc, after_append, after_append, hdrop]

theorem escapeChar_of_plain {edge : Bool} {c : Char} (hc : isSpecial c = false)
    (hspace : c = ' ' → edge = false) : escapeChar edge c = [c] := by
  rw [escapeChar, hc, Bool.false_or, if_neg]
  rw [Bool.and_eq_true, beq_iff_eq]
  rintro ⟨rfl, hedge⟩
  simp [hspace rfl] at hedge

theorem isSpecial_of_isWhitespace {c : Char} (hc : Str.isWhitespace c = true) :
    isSpecial c = false := by
  rw [Bool.eq_false_iff]
  intro h
  simp only [isSpecial, Bool.or_eq_true, beq_iff_eq] at h
  obtain (((((((rfl | rfl) | rfl) | rfl) | rfl) | rfl) | rfl) | rfl) | rfl := h <;>
    exact absurd hc (by decide)

theorem after_trim_of_last {t v : Str} {edge : Bool} {c : Char}
    (hspells : Spells (t ++ escapeChar edge c) v) (hc : Str.isWhitespace c = false) :
    after false (Str.trim (t ++ escapeChar edge c)) = false := by
  obtain h | ⟨h, -⟩ := escapeChar_cases edge c
  · rw [h, List.append_cons, after_trim_concat hc, ← List.append_cons, ← h]
    exact hspells.closed
  · rw [h, after_trim_concat hc, ← h]
    exact hspells.closed

theorem blank_concat_iff {v : Str} {c : Char} (hc : Str.isWhitespace c = true) :
    Str.Blank (v ++ [c]) ↔ Str.Blank v := by
  simp [Str.Blank, or_imp, forall_and, hc]

theorem open_escapeInner_iff (v : Str) :
    after false (Str.trim (escapeInner true v)) = true ↔ v.Blank ∧ v.head? = some ' ' := by
  induction v using List.reverseRecOn with
  | nil => simp [escapeInner, Str.trim]
  | append_singleton v c ih =>
    rw [escapeInner_concat, Bool.true_and]
    have hspells := spells_escapeInner true (v ++ [c])
    rw [escapeInner_concat, Bool.true_and] at hspells
    cases hc : Str.isWhitespace c with
    | false =>
      rw [after_trim_of_last hspells hc]
      constructor
      · intro h
        cases h
      · rintro ⟨hblank, -⟩
        cases (hblank c (by simp)).symm.trans hc
    | true =>
      by_cases hspace : c = ' ' ∧ v = []
      · obtain ⟨rfl, rfl⟩ := hspace
        exact iff_of_true rfl ⟨(blank_concat_iff rfl).mpr (by simp [Str.Blank]), rfl⟩
      · have hraw : escapeChar v.isEmpty c = [c] := by
          refine escapeChar_of_plain (isSpecial_of_isWhitespace hc) fun hs => ?_
          rw [List.isEmpty_eq_false_iff]
          exact fun hv => hspace ⟨hs, hv⟩
        rw [hraw, Str.trim_append_blank (by simpa [Str.Blank] using hc), ih, blank_concat_iff hc]
        cases v with
        | nil => simpa using fun _ hs => hspace ⟨hs, rfl⟩
        | cons d v => rfl

/-- The value ends in a space that display escapes, or is blank after one. -/
def EndsInSpace (v : Str) : Prop := v.getLast? = some ' ' ∨ (v.Blank ∧ v.head? = some ' ')

instance (v : Str) : Decidable (EndsInSpace v) :=
  decidable_of_iff (v.getLast? = some ' ' ∨ (v.all Str.isWhitespace = true ∧ v.head? = some ' '))
    (by rw [List.all_eq_true, EndsInSpace, Str.Blank])

theorem open_escapeValue_iff (v : Str) :
    after false (Str.trim (escapeValue v)) = true ↔ EndsInSpace v := by
  cases v using List.reverseRecOn with
  | nil => simp [escapeValue, escapeFrom, EndsInSpace, Str.trim]
  | append_singleton v c =>
    have hspells := spells_escapeFrom true (v ++ [c])
    rw [EndsInSpace, List.getLast?_concat, Option.some.injEq, escapeValue]
    rw [escapeFrom_concat] at hspells ⊢
    cases hc : Str.isWhitespace c with
    | false =>
      rw [after_trim_of_last hspells hc]
      constructor
      · intro h
        cases h
      · rintro (rfl | ⟨hblank, -⟩)
        · cases hc
        · cases (hblank c (by simp)).symm.trans hc
    | true =>
      by_cases hspace : c = ' '
      · subst hspace
        have hescape : escapeChar true ' ' = ['\\', ' '] := rfl
        rw [hescape, List.append_cons, Str.trim_append_blank (by simp [Str.Blank, hc]),
          after_trim_concat (by decide), after_append, (spells_escapeInner true v).closed]
        simp
      · rw [escapeChar_of_plain (isSpecial_of_isWhitespace hc) fun hs => absurd hs hspace,
          Str.trim_append_blank (by simpa [Str.Blank] using hc), open_escapeInner_iff]
        rw [blank_concat_iff hc, or_iff_right hspace]
        cases v with
        | nil => simp [hspace]
        | cons d v => rfl

end Escaped

section Names

/-- The attribute type does not swallow the `=` behind it, nor does display cut
an escape at the end of the value. -/
structure Ava.Shown (a : Ava) : Prop where
  attr : after false a.attr = false
  value : ¬ EndsInSpace a.value

instance (a : Ava) : Decidable a.Shown :=
  decidable_of_iff (after false a.attr = false ∧ ¬ EndsInSpace a.value)
    ⟨fun h => ⟨h.1, h.2⟩, fun h => ⟨h.attr, h.value⟩⟩

def Ava.reread (a : Ava) : Ava := ⟨a.attr, unescape (Str.trim (escapeValue a.value))⟩

theorem Ava.length_normValue_le (a : Ava) :
    a.normValue.length ≤ a.reread.normValue.length ∧
      (a.reread.normValue.length ≤ a.normValue.length → ¬ EndsInSpace a.value) := by
  have hspells := spells_escapeFrom true a.value
  rw [Ava.normValue, Ava.normValue, Str.length_asciiLower, Str.length_asciiLower,
    ← open_escapeValue_iff]
  cases hafter : after false (Str.trim (escapeValue a.value)) with
  | false =>
    have hsame : Str.trim a.reread.value = Str.trim a.value := hspells.trim_of_closed hafter
    rw [hsame]
    simp
  | true =>
    have hlonger := hspells.length_trim_of_open hafter
    exact ⟨hlonger.le, fun hle => absurd hle (not_le.mpr hlonger)⟩

theorem Ava.norm_reread {a : Ava} (h : ¬ EndsInSpace a.value) : a.reread.norm = a.norm := by
  rw [← open_escapeValue_iff, Bool.not_eq_true] at h
  have hsame : Str.trim a.reread.value = Str.trim a.value :=
    (spells_escapeFrom true a.value).trim_of_closed h
  rw [Ava.norm, Ava.norm, Ava.normValue, hsame]
  rfl

theorem Ava.Wf.parseAva_display {a b : Ava} (h : a.Wf) (full : Str) :
    parseAva (Str.trim a.display) full = .ok b ↔ after false a.attr = false ∧ b = a.reread := by
  obtain ⟨m, w, ht, hw, htrim⟩ := trim_assertion h.attr_ne_nil h.attr_trimmed (escapeValue a.value)
  have hvalue : Str.trim m = Str.trim (escapeValue a.value) := by rw [ht, Str.trim_append_blank hw]
  rw [Ava.display, htrim]
  cases hattr : after false a.attr with
  | false =>
    have hok : parseAva (a.attr ++ '=' :: m) full = .ok a.reread := by
      refine parseAva_eq_ok.mpr ⟨a.attr, m, rfl, h.attr_guards '=' (by simp), hattr, ?_, ?_⟩
      · rw [Str.trim_of_trimmed h.attr_trimmed]
        exact h.attr_ne_nil
      · rw [Str.trim_of_trimmed h.attr_trimmed, h.attr_lower, hvalue]
        rfl
    rw [hok]
    simp [eq_comm]
  | true =>
    have hguards : Guards '=' false (escapeValue a.value) :=
      guards_escapeFrom (by decide) (by decide) true a.value
    rw [ht, guards_append] at hguards
    have hall : Guards '=' false (a.attr ++ '=' :: m) := by
      rw [guards_append, hattr]
      exact ⟨h.attr_guards '=' (by simp), hguards.1⟩
    rw [parseAva, findUnescaped, findUnescapedFrom_guarded hall]
    simp

theorem Rdn.Wf.not_blank_display {r : Rdn} (h : r.Wf) : ¬ Str.Blank r.display := by
  obtain ⟨a, avas, hr⟩ := List.exists_cons_of_ne_nil h.nonempty
  intro hblank
  refine absurd (hblank '=' ?_) (by decide)
  rw [Rdn.display_eq, hr, List.map_cons]
  exact Str.mem_join_of_mem List.mem_cons_self (by simp [Ava.display])

theorem Rdn.Wf.parseRdn_display {r r' : Rdn} (h : r.Wf) (full : Str) :
    parseRdn full r.display = .ok r' ↔ (∀ a ∈ r.avas, after false a.attr = false) ∧
      r' = ⟨(r.avas.map Ava.reread).insertionSort fun a b => a.le b⟩ := by
  rw [parseRdn_eq_ok_of_not_blank h.not_blank_display, Rdn.display_eq,
    splitUnescaped_join (by decide) h.framed_display]
  simp only [List.forall₂_map_left_iff]
  have hread : ∀ avas : List Ava, List.Forall₂ (fun a b => parseAva (Str.trim a.display) full = .ok b)
      r.avas avas ↔ (∀ a ∈ r.avas, after false a.attr = false) ∧ avas = r.avas.map Ava.reread :=
    fun _ => Lists.forall₂_eq_map_iff fun a ha _ => (h.avas a ha).parseAva_display full
  simp only [hread]
  constructor
  · rintro ⟨avas, ⟨hattrs, rfl⟩, rfl⟩
    exact ⟨hattrs, rfl⟩
  · rintro ⟨hattrs, rfl⟩
    exact ⟨_, ⟨hattrs, rfl⟩, rfl⟩

theorem Rdn.Wf.norm_reread_iff {r : Rdn} (h : r.Wf) :
    Rdn.norm ⟨(r.avas.map Ava.reread).insertionSort fun a b => a.le b⟩ = r.norm ↔
      ∀ a ∈ r.avas, ¬ EndsInSpace a.value := by
  constructor
  · intro hnorm
    have hperm := List.perm_insertionSort (fun a b : Ava => a.le b = true) (r.avas.map Ava.reread)
    have hsum := congrArg (fun norm => (norm.map fun a => a.2.length).sum) hnorm
    simp only [Rdn.norm, List.map_map] at hsum
    rw [(hperm.map _).sum_eq, List.map_map] at hsum
    have hsame : List.Forall₂ (fun a b : Ava => a = b) r.avas r.avas := List.forall₂_same.mpr fun _ _ => rfl
    have hpair := Lists.forall₂_of_sum_le hsame
      (fun a b hab => hab ▸ a.length_normValue_le.1) hsum.le
    intro a ha
    exact a.length_normValue_le.2 (List.forall₂_same.mp hpair a ha).2
  · intro hvalues
    have hnorms : ∀ a ∈ r.avas, a.reread.norm = a.norm := fun a ha => Ava.norm_reread (hvalues a ha)
    have hle : ∀ a ∈ r.avas, ∀ b ∈ r.avas, a.reread.le b.reread = a.le b := by
      intro a ha b hb
      have hva : a.reread.normValue = a.normValue := congrArg Prod.snd (hnorms a ha)
      have hvb : b.reread.normValue = b.normValue := congrArg Prod.snd (hnorms b hb)
      rw [Ava.le, Ava.le, hva, hvb]
      rfl
    have hsorted : (r.avas.map Ava.reread).Pairwise fun a b => a.le b = true := by
      rw [List.pairwise_map]
      refine h.sorted.imp_of_mem fun ha hb hab => ?_
      rw [hle _ ha _ hb]
      exact hab
    rw [hsorted.insertionSort_eq, Rdn.norm, Rdn.norm, List.map_map]
    exact List.map_congr_left hnorms

theorem Rdn.Wf.shown_iff {r : Rdn} (h : r.Wf) (full : Str) :
    (∃ r', parseRdn full r.display = .ok r' ∧ r'.norm = r.norm) ↔ ∀ a ∈ r.avas, a.Shown := by
  simp only [h.parseRdn_display]
  constructor
  · rintro ⟨r', ⟨hattrs, rfl⟩, hnorm⟩ a ha
    exact ⟨hattrs a ha, h.norm_reread_iff.mp hnorm a ha⟩
  · intro hshown
    exact ⟨_, ⟨fun a ha => (hshown a ha).attr, rfl⟩,
      h.norm_reread_iff.mpr fun a ha => (hshown a ha).value⟩

/-- A parsed name survives display exactly if each of its assertions is
shown. -/
theorem displays_iff_shown {s : Str} {d : Dn} (h : Dn.parse s = .ok d) :
    d.Displays ↔ ∀ r ∈ d.rdns, ∀ a ∈ r.avas, a.Shown := by
  have hwf := Dn.parse_wf h
  by_cases hne : d.rdns = []
  · have hroot : d = ⟨[]⟩ := by
      cases d
      exact congrArg Dn.mk hne
    subst hroot
    exact iff_of_true ⟨⟨[]⟩, rfl, rfl⟩ (by simp)
  · rw [Dn.Displays]
    simp only [Dn.parse_eq_ok_of_not_blank (hwf.not_blank_display hne) [],
      hwf.splitUnescaped_display hne, List.forall₂_map_left_iff]
    have hrdns : (∃ e : Dn, List.Forall₂ (fun r r' => parseRdn [] r.display = .ok r') d.rdns e.rdns ∧
        e.Same d) ↔ ∃ rdns, List.Forall₂ (fun r r' => parseRdn [] r.display = .ok r') d.rdns rdns ∧
          rdns.map Rdn.norm = d.rdns.map Rdn.norm := by
      constructor
      · rintro ⟨e, he⟩
        exact ⟨e.rdns, he⟩
      · rintro ⟨rdns, he⟩
        exact ⟨⟨rdns⟩, he⟩
    calc (∃ e : Dn, List.Forall₂ (fun r r' => parseRdn [] r.display = .ok r') d.rdns e.rdns ∧ e.Same d)
        ↔ ∃ rdns, List.Forall₂ (fun r r' => parseRdn [] r.display = .ok r') d.rdns rdns ∧
            rdns.map Rdn.norm = d.rdns.map Rdn.norm := hrdns
      _ ↔ ∀ r ∈ d.rdns, ∃ r', parseRdn [] r.display = .ok r' ∧ r'.norm = r.norm :=
          Lists.exists_forall₂_map_iff
      _ ↔ ∀ r ∈ d.rdns, ∀ a ∈ r.avas, a.Shown :=
          forall₂_congr fun r hr => (hwf r hr).shown_iff []

theorem Dn.Legible.displays_folded {d : Dn} (hw : d.Wf) (hl : d.Legible) : d.folded.Displays := by
  refine (displays_iff_shown (hl.parse_keyForm hw)).mpr fun r hr a ha => ?_
  obtain ⟨r', hr', rfl⟩ := List.mem_map.mp hr
  obtain ⟨b, hb, rfl⟩ := List.mem_map.mp ha
  have hlegible : LegibleAva b.norm := hl.of_mem hr' _ (List.mem_map_of_mem hb)
  have hspace : Str.isWhitespace ' ' = true := by decide
  refine ⟨hlegible.attr_closed, ?_⟩
  rintro (hlast | ⟨-, hhead⟩)
  · cases hspace.symm.trans (b.trimmed_normValue.last ' ' hlast)
  · cases hspace.symm.trans (b.trimmed_normValue.head ' ' hhead)

theorem Dn.Legible.same_of_display {d e : Dn} (hdw : d.Wf) (hd : d.Legible) (hew : e.Wf)
    (he : e.Legible) (h : d.folded.display = e.folded.display) : d.Same e := by
  have hsame := (hd.displays_folded hdw).same (he.displays_folded hew) h
  exact d.folded_same.symm.trans (hsame.trans e.folded_same)

theorem displays_comma : Dn.Displays ⟨[⟨[⟨"cn", "J, S"⟩]⟩, ⟨[⟨"dc", "lo"⟩]⟩]⟩ := by
  have hparse : Dn.parse "CN=J\\2C S,dc=lo" =
      .ok ⟨[⟨[⟨"cn", "J, S"⟩]⟩, ⟨[⟨"dc", "lo"⟩]⟩]⟩ := rfl
  exact (displays_iff_shown hparse).mpr (by decide)

/-- A value that ends in a space loses the space and keeps its escape; an
attribute type that ends in one does not read at all. -/
theorem not_displays_spaces :
    (∃ d e, Dn.parse "cn=x\\20,dc=lo" = .ok d ∧ d.display = "cn=x\\ ,dc=lo" ∧
      Dn.parse d.display = .ok e ∧ e.display = "cn=x\\\\,dc=lo" ∧ ¬ e.Same d ∧ ¬ d.Displays) ∧
    ∃ d, Dn.parse "a\\ =b" = .ok d ∧ d.display = "a\\=b" ∧ (Dn.parse d.display).toOption = none := by
  have hread : ∀ (d e : Dn), Dn.parse d.display = .ok e → ¬ e.Same d → ¬ d.Displays := by
    rintro d e he hne ⟨e', he', hsame⟩
    cases he.symm.trans he'
    exact hne hsame
  exact ⟨⟨_, _, rfl, rfl, rfl, rfl, by decide, hread _ _ rfl (by decide)⟩, _, rfl, rfl, rfl⟩

end Names

section Composition

theorem unescape_escapeValue (v : Str) : unescape (escapeValue v) = v :=
  (spells_escapeFrom true v).unescape

theorem framed_escapeValue {d : Char} (hd : isSpecial d = true) (hb : d ≠ '\\') {vs : List Str}
    (h : vs ≠ []) : Framed d (vs.map escapeValue) where
  nonempty := by simpa using h
  guards := by
    intro p hp
    obtain ⟨v, -, rfl⟩ := List.mem_map.mp hp
    exact guards_escapeFrom hd hb true v
  closed := by
    intro p hp
    obtain ⟨v, -, rfl⟩ := List.mem_map.mp (List.mem_of_mem_dropLast hp)
    exact after_escapeFrom true v

theorem splitUnescaped_escapeValue {d : Char} (hd : isSpecial d = true) (hb : d ≠ '\\')
    {vs : List Str} (h : vs ≠ []) :
    (splitUnescaped (Str.join d (vs.map escapeValue)) d).map unescape = vs := by
  rw [splitUnescaped_join hb (framed_escapeValue hd hb h), List.map_map]
  conv_rhs => rw [← List.map_id vs]
  exact List.map_congr_left fun v _ => unescape_escapeValue v

theorem findUnescaped_assertion {attr : Str} (heq : '=' ∉ attr) (hb : '\\' ∉ attr) (t : Str) :
    findUnescaped (attr ++ '=' :: t) '=' = some attr.length := by
  rw [findUnescaped, findUnescapedFrom_sep (by decide) (guards_of_not_mem heq false)
    (after_of_not_mem hb), Nat.zero_add]

theorem Ava.reread_of_untrimmed {a : Ava} (h : Str.trim (escapeValue a.value) = escapeValue a.value) :
    a.reread = a := by
  rw [Ava.reread, h, unescape_escapeValue]

theorem Rdn.Wf.parseRdn_display_self {r : Rdn} (h : r.Wf) (full : Str)
    (hattrs : ∀ a ∈ r.avas, after false a.attr = false)
    (hvalues : ∀ a ∈ r.avas, Str.trim (escapeValue a.value) = escapeValue a.value) :
    parseRdn full r.display = .ok r := by
  have hreread : r.avas.map Ava.reread = r.avas := by
    conv_rhs => rw [← List.map_id r.avas]
    exact List.map_congr_left fun a ha => Ava.reread_of_untrimmed (hvalues a ha)
  refine (h.parseRdn_display full).mpr ⟨hattrs, ?_⟩
  rw [hreread, h.sorted.insertionSort_eq]

theorem Dn.Wf.parse_display_self {d : Dn} (h : d.Wf)
    (hattrs : ∀ r ∈ d.rdns, ∀ a ∈ r.avas, after false a.attr = false)
    (hvalues : ∀ r ∈ d.rdns, ∀ a ∈ r.avas, Str.trim (escapeValue a.value) = escapeValue a.value) :
    Dn.parse d.display = .ok d := by
  by_cases hne : d.rdns = []
  · cases d
    cases hne
    rfl
  · rw [Dn.parse_eq_ok_of_not_blank (h.not_blank_display hne) [], h.splitUnescaped_display hne,
      List.forall₂_map_left_iff, List.forall₂_same]
    intro r hr
    exact (h r hr).parseRdn_display_self [] (hattrs r hr) (hvalues r hr)

/-- The two scanners and the decoder agree on where an escaped value ends.  What
a name can lose on the way through its text, it loses to trimming or to an
attribute type. -/
theorem escaping_compositional :
    (∀ d ∈ [',', '+'], ∀ vs : List Str, vs ≠ [] →
      (splitUnescaped (Str.join d (vs.map escapeValue)) d).map unescape = vs) ∧
    (∀ attr v : Str, '=' ∉ attr → '\\' ∉ attr →
      ∃ eq, findUnescaped (attr ++ '=' :: escapeValue v) '=' = some eq ∧
        (attr ++ '=' :: escapeValue v).take eq = attr ∧
        unescape ((attr ++ '=' :: escapeValue v).drop (eq + 1)) = v) ∧
    ∀ d : Dn, (∀ r ∈ d.rdns, r.avas ≠ [] ∧ r.avas.Pairwise fun a b => a.le b = true) →
      Dn.parse d.display ≠ .ok d →
      ∃ r ∈ d.rdns, ∃ a ∈ r.avas, Str.trim (escapeValue a.value) ≠ escapeValue a.value ∨
        ¬ a.Wf ∨ after false a.attr = true := by
  refine ⟨?_, ?_, ?_⟩
  · intro d hd vs hvs
    have hspecial : isSpecial d = true ∧ d ≠ '\\' := by
      simp only [List.mem_cons, List.not_mem_nil, or_false] at hd
      rcases hd with rfl | rfl <;> decide
    exact splitUnescaped_escapeValue hspecial.1 hspecial.2 hvs
  · intro attr v heq hb
    refine ⟨attr.length, findUnescaped_assertion heq hb _, by simp, ?_⟩
    rw [← List.drop_drop, List.drop_left]
    exact unescape_escapeValue v
  · intro d hrdns
    contrapose!
    intro hclean
    have hwf : d.Wf := fun r hr =>
      ⟨(hrdns r hr).1, (hrdns r hr).2, fun a ha => (hclean r hr a ha).2.1⟩
    refine hwf.parse_display_self ?_ ?_
    · intro r hr a ha
      exact Bool.eq_false_iff.mpr (hclean r hr a ha).2.2
    · intro r hr a ha
      exact (hclean r hr a ha).1

theorem escaping_compositional_sample :
    (splitUnescaped (Str.join ',' (["a\\", "2C", " 4", ""].map escapeValue)) ',').map unescape =
      ["a\\", "2C", " 4", ""] ∧
    ∃ eq, findUnescaped ("cn" ++ '=' :: escapeValue "=\\") '=' = some eq ∧
      (("cn" : Str) ++ '=' :: escapeValue "=\\").take eq = "cn" ∧
      unescape ((("cn" : Str) ++ '=' :: escapeValue "=\\").drop (eq + 1)) = "=\\" :=
  ⟨escaping_compositional.1 ',' (by decide) _ (by decide),
    escaping_compositional.2.1 "cn" "=\\" (by decide) (by decide)⟩

end Composition

end IronDirectory.Naming
