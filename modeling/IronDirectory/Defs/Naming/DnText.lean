import IronDirectory.Defs.Naming.DnLaws

namespace IronDirectory.Naming

open Base Escape Lists Outcome

section Split

variable {d : Char} {s t : Str}

theorem splitUnescaped_append (hd : d ≠ '\\') (hs : after false s = false) :
    splitUnescaped (s ++ d :: t) d = splitUnescaped s d ++ splitUnescaped t d := by
  have hfs := framed_splitUnescaped hd s
  have hft := framed_splitUnescaped hd t
  rw [splitUnescaped_eq_iff hd]
  constructor
  · rw [framed_append hfs.nonempty hft.nonempty, ← after_join hd, join_splitUnescaped hd]
    exact ⟨hfs, hs, hft⟩
  · rw [Str.join_append hfs.nonempty hft.nonempty, join_splitUnescaped hd, join_splitUnescaped hd]

theorem Framed.absorb {p q : Str} {qs : List Str} (hp : Guards d false p)
    (ho : after false p = true) (h : Framed d (q :: qs)) : Framed d ((p ++ d :: q) :: qs) := by
  have hguards : Guards d false (p ++ d :: q) ↔ Guards d false q := by
    rw [guards_append, ho, guards_true_cons]
    exact and_iff_right hp
  have hafter : after false (p ++ d :: q) = after false q := by
    rw [after_append, ho, after_true_cons]
  cases qs with
  | nil => rwa [framed_singleton, hguards, ← framed_singleton]
  | cons q' qs => rwa [framed_cons_cons, hguards, hafter, ← framed_cons_cons]

theorem splitUnescaped_append_open (hd : d ≠ '\\') (hs : after false s = true) :
    ∃ ps p q qs, splitUnescaped s d = ps ++ [p] ∧ splitUnescaped t d = q :: qs ∧
      splitUnescaped (s ++ d :: t) d = ps ++ (p ++ d :: q) :: qs := by
  have hfs := framed_splitUnescaped hd s
  have hft := framed_splitUnescaped hd t
  have hjs := join_splitUnescaped hd s
  have hjt := join_splitUnescaped hd t
  obtain ⟨q, qs, hqs⟩ := List.exists_cons_of_ne_nil hft.nonempty
  obtain ⟨ps, p, hps⟩ := (List.eq_nil_or_concat' (splitUnescaped s d)).resolve_left hfs.nonempty
  refine ⟨ps, p, q, qs, hps, hqs, ?_⟩
  have ho : after false p = true := by
    rw [← hs, ← hjs, after_join hd hfs.nonempty]
    simp only [hps, List.getLast_append_singleton]
  have hp : Guards d false p := hfs.guards p (by simp [hps])
  rw [hqs] at hft hjt
  rw [hps] at hfs hjs
  have habs := Framed.absorb hp ho hft
  have hjoin : Str.join d ((p ++ d :: q) :: qs) = p ++ d :: t := by
    rw [← hjt]
    cases qs <;> simp [Str.join_cons_cons]
  rw [splitUnescaped_eq_iff hd]
  cases ps with
  | nil =>
    rw [← hjs]
    exact ⟨habs, by simpa using hjoin⟩
  | cons p' ps =>
    rw [framed_append (List.cons_ne_nil p' ps) (by simp)] at hfs
    rw [Str.join_append (List.cons_ne_nil p' ps) (by simp), Str.join_singleton] at hjs
    rw [framed_append (List.cons_ne_nil p' ps) (by simp),
      Str.join_append (List.cons_ne_nil p' ps) (by simp), hjoin, ← hjs]
    exact ⟨⟨hfs.1, hfs.2.1, habs⟩, by simp⟩

end Split

theorem parseRdn_trim (full t : Str) : parseRdn full (Str.trim t) = parseRdn full t := by
  simp only [parseRdn, Str.trim_trim]

theorem Dn.parse_eq_ok_of_not_blank {s : Str} {d : Dn} (hs : ¬ s.Blank) (full : Str) :
    parse s = .ok d ↔
      List.Forall₂ (fun t r => parseRdn full t = .ok r) (splitUnescaped s ',') d.rdns := by
  have hne : Str.trim s ≠ [] := fun h => hs (Str.trim_eq_nil_iff.mp h)
  obtain ⟨w, w', hw, hw', hpad⟩ := Str.exists_pad s
  obtain ⟨qs, hqs, hjoin, hf⟩ :=
    (framed_splitUnescaped (d := ',') (by decide) (Str.trim s)).pad (by decide) hw hw'
  rw [join_splitUnescaped (by decide), ← hpad] at hjoin
  rw [(splitUnescaped_eq_iff (by decide)).mpr ⟨hqs, hjoin⟩, parse_eq_ok]
  simp only [hne, false_and, false_or, not_false_eq_true, true_and, ne_eq]
  refine (forall₂_congr_left hf fun q t r h => ?_).symm
  rw [parseRdn_full s, ← parseRdn_trim s q, h, parseRdn_trim]

section Display

theorem escapeChar_cases (edge : Bool) (c : Char) :
    escapeChar edge c = ['\\', c] ∨ (escapeChar edge c = [c] ∧ isSpecial c = false) := by
  unfold escapeChar
  split <;> simp_all

theorem after_escapeFrom (first : Bool) (v : Str) : after false (escapeFrom first v) = false := by
  induction v generalizing first with
  | nil => rfl
  | cons c cs ih =>
    rw [escapeFrom, after_append]
    obtain h | ⟨h, hc⟩ := escapeChar_cases (first || cs.isEmpty) c
    · rw [h]
      exact ih false
    · have hb : c ≠ '\\' := by
        rintro rfl
        exact absurd hc (by decide)
      rw [h, after_cons_of_ne hb]
      exact ih false

theorem guards_escapeFrom {d : Char} (hd : isSpecial d = true) (hb : d ≠ '\\') (first : Bool)
    (v : Str) : Guards d false (escapeFrom first v) := by
  induction v generalizing first with
  | nil => trivial
  | cons c cs ih =>
    rw [escapeFrom, guards_append]
    obtain h | ⟨h, hc⟩ := escapeChar_cases (first || cs.isEmpty) c
    · rw [h]
      exact ⟨⟨Ne.symm hb, trivial⟩, ih false⟩
    · have hne : c ≠ d := by
        rintro rfl
        simp [hd] at hc
      have hbc : c ≠ '\\' := by
        rintro rfl
        exact absurd hc (by decide)
      rw [h, after_cons_of_ne hbc]
      exact ⟨(guards_cons_of_ne hbc).mpr ⟨hne, trivial⟩, ih false⟩

def Ava.display (a : Ava) : Str := a.attr ++ '=' :: escapeValue a.value

theorem Rdn.display_eq (r : Rdn) : r.display = Str.join '+' (r.avas.map Ava.display) := rfl

theorem Ava.after_display (a : Ava) : after false a.display = false := by
  rw [display, after_append, after_cons_of_ne (by decide)]
  exact after_escapeFrom true a.value

theorem Ava.Wf.guards_display {a : Ava} (h : a.Wf) {d : Char} (hd : d ∈ [',', '+']) :
    Guards d false a.display := by
  have hspecial : isSpecial d = true ∧ d ≠ '\\' ∧ '=' ≠ d := by
    simp only [List.mem_cons, List.not_mem_nil, or_false] at hd
    rcases hd with rfl | rfl <;> decide
  have hattr : Guards d false a.attr := h.attr_guards d (List.mem_append_left ['='] hd)
  have hvalue := guards_escapeFrom hspecial.1 hspecial.2.1 true a.value
  rw [display, guards_append]
  refine ⟨hattr, ?_⟩
  cases after false a.attr with
  | true => exact hvalue
  | false => exact (guards_cons_of_ne (by decide)).mpr ⟨hspecial.2.2, hvalue⟩

theorem Rdn.Wf.framed_display {r : Rdn} (h : r.Wf) : Framed '+' (r.avas.map Ava.display) where
  nonempty := by simpa using h.nonempty
  guards := by
    simp only [List.forall_mem_map]
    intro a ha
    exact (h.avas a ha).guards_display (by simp)
  closed := by
    rw [← List.map_dropLast]
    simp only [List.forall_mem_map]
    intro a _
    exact a.after_display

theorem Rdn.Wf.after_display {r : Rdn} (h : r.Wf) : after false r.display = false := by
  rw [Rdn.display_eq, after_join (by decide) h.framed_display.nonempty, List.getLast_map]
  exact Ava.after_display _

theorem Dn.Wf.framed_display {d : Dn} (h : d.Wf) (hne : d.rdns ≠ []) :
    Framed ',' (d.rdns.map Rdn.display) where
  nonempty := by simpa using hne
  guards := by
    simp only [List.forall_mem_map]
    intro r hr
    rw [Rdn.display_eq, guards_join (by decide) (by decide) (h r hr).framed_display]
    simp only [List.forall_mem_map]
    intro a ha
    exact ((h r hr).avas a ha).guards_display (by simp)
  closed := by
    rw [← List.map_dropLast]
    simp only [List.forall_mem_map]
    intro r hr
    exact (h r (List.mem_of_mem_dropLast hr)).after_display

theorem Dn.Wf.splitUnescaped_display {d : Dn} (h : d.Wf) (hne : d.rdns ≠ []) :
    splitUnescaped d.display ',' = d.rdns.map Rdn.display :=
  splitUnescaped_join (by decide) (h.framed_display hne)

theorem Dn.Wf.not_blank_display {d : Dn} (h : d.Wf) (hne : d.rdns ≠ []) : ¬ d.display.Blank := by
  obtain ⟨r, hr⟩ := List.exists_mem_of_ne_nil _ hne
  obtain ⟨a, ha⟩ := List.exists_mem_of_ne_nil _ (h r hr).nonempty
  have hmem : '=' ∈ d.display := by
    apply Str.mem_join_of_mem (List.mem_map_of_mem hr)
    apply Str.mem_join_of_mem (List.mem_map_of_mem ha)
    simp
  intro hblank
  exact absurd (hblank _ hmem) (by decide)

end Display

section Prefixed

variable {s : Str} {base d : Dn}

theorem not_blank_prefixed (s t : Str) : ¬ Str.Blank (s ++ ',' :: t) := fun h =>
  absurd (h ',' (by simp)) (by decide)

theorem Dn.parse_prefixed (hs : ¬ s.Blank) (hclosed : after false s = false) (hbase : base.Wf)
    (hne : base.rdns ≠ []) :
    parse (s ++ ',' :: base.display) = .ok d ↔
      ∃ a b, parse s = .ok a ∧ parse base.display = .ok b ∧ d = ⟨a.rdns ++ b.rdns⟩ := by
  rw [parse_eq_ok_of_not_blank (not_blank_prefixed _ _) [],
    splitUnescaped_append (by decide) hclosed, forall₂_append_left_iff]
  simp only [parse_eq_ok_of_not_blank hs [],
    parse_eq_ok_of_not_blank (hbase.not_blank_display hne) []]
  constructor
  · rintro ⟨zs, zs', hzs, hzs', hd⟩
    exact ⟨⟨zs⟩, ⟨zs'⟩, hzs, hzs', by rw [← hd]⟩
  · rintro ⟨a, b, ha, hb, rfl⟩
    exact ⟨a.rdns, b.rdns, ha, hb, rfl⟩

theorem Dn.depth_of_parse_prefixed_open (hopen : after false s = true) (hbase : base.Wf)
    (hne : base.rdns ≠ []) (h : parse (s ++ ',' :: base.display) = .ok d) :
    d.depth + 1 = (splitUnescaped s ',').length + base.depth := by
  rw [parse_eq_ok_of_not_blank (not_blank_prefixed _ _) []] at h
  obtain ⟨ps, p, q, qs, hps, hqs, hsplit⟩ :=
    splitUnescaped_append_open (t := base.display) (d := ',') (by decide) hopen
  have hlen := congrArg List.length hqs
  rw [hbase.splitUnescaped_display hne, List.length_map] at hlen
  rw [depth, depth, ← h.length_eq, hsplit, hps, hlen]
  simp only [List.length_append, List.length_cons, List.length_nil]
  omega

theorem Dn.same_of_parse_prefixed_iff {r : Rdn} (hr : parse s = .ok ⟨[r]⟩) (hbase : base.Wf)
    (hne : base.rdns ≠ []) (h : parse (s ++ ',' :: base.display) = .ok d) :
    d.Same ⟨r :: base.rdns⟩ ↔ after false s = false ∧ base.Displays := by
  have hs : ¬ s.Blank := by
    intro hblank
    rw [parse, Str.trim_eq_nil_iff.mpr hblank] at hr
    cases hr
  cases hclosed : after false s with
  | true =>
    have hlen := ((parse_eq_ok_of_not_blank hs []).mp hr).length_eq
    have hdepth := depth_of_parse_prefixed_open hclosed hbase hne h
    refine iff_of_false (fun hsame => ?_) (by simp)
    have := congrArg List.length hsame
    simp only [Dn.norm, List.length_map, List.length_cons, List.length_nil, depth] at *
    omega
  | false =>
    obtain ⟨a, b, ha, hb, rfl⟩ := (parse_prefixed hs hclosed hbase hne).mp h
    cases hr.symm.trans ha
    have hsame : Dn.Same ⟨[r] ++ b.rdns⟩ ⟨r :: base.rdns⟩ ↔ b.Same base := by
      simp [Dn.Same, Dn.norm]
    rw [hsame, Displays]
    constructor
    · intro h
      exact ⟨rfl, b, hb, h⟩
    · rintro ⟨-, b', hb', h⟩
      cases hb.symm.trans hb'
      exact h

end Prefixed

end IronDirectory.Naming
