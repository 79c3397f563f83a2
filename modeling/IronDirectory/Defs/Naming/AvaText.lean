import IronDirectory.Defs.Naming.DnText

namespace IronDirectory.Naming

open Base Escape Lists Outcome

/-- An attribute type that stands for itself wherever it is read. -/
structure PlainAttr (attr : Str) : Prop where
  ne_nil : attr ≠ []
  lower : attr.asciiLower = attr
  plain : ∀ c ∈ attr, Str.isWhitespace c = false ∧ c ∉ [',', '+', '=', '\\']

theorem trim_assertion {attr : Str} (hne : attr ≠ []) (hattr : Str.Trimmed attr) (t : Str) :
    ∃ m w, t = m ++ w ∧ Str.Blank w ∧ Str.trim (attr ++ '=' :: t) = attr ++ '=' :: m := by
  have hblank : Str.Blank (t.rtakeWhile Str.isWhitespace) := fun c => List.mem_rtakeWhile_imp
  have ht : t.rdropWhile Str.isWhitespace ++ t.rtakeWhile Str.isWhitespace = t :=
    List.rdropWhile_append_rtakeWhile
  refine ⟨t.rdropWhile Str.isWhitespace, _, ht.symm, hblank, ?_⟩
  have htrimmed : Str.Trimmed (attr ++ '=' :: t.rdropWhile Str.isWhitespace) := by
    constructor
    · intro c hc
      rw [List.head?_append_of_ne_nil _ hne] at hc
      exact hattr.head c hc
    · intro c hc
      by_cases hm : t.rdropWhile Str.isWhitespace = []
      · rw [hm] at hc
        obtain rfl : c = '=' := by simpa using hc.symm
        decide
      · rw [List.getLast?_append_cons, List.getLast?_cons_of_ne_nil hm] at hc
        obtain ⟨hne, rfl⟩ := List.mem_getLast?_eq_getLast hc
        exact Bool.eq_false_iff.mpr (List.rdropWhile_last_not Str.isWhitespace t hne)
  conv_lhs => rw [← ht, ← List.cons_append, ← List.append_assoc]
  rw [Str.trim_append_blank hblank, Str.trim_of_trimmed htrimmed]

namespace PlainAttr

variable {attr : Str} (h : PlainAttr attr)

include h

theorem not_mem {c : Char} (hc : c ∈ [',', '+', '=', '\\']) : c ∉ attr := fun hm =>
  (h.plain c hm).2 hc

theorem trimmed : Str.Trimmed attr where
  head := fun c hc => (h.plain c (List.mem_of_mem_head? hc)).1
  last := fun c hc => (h.plain c (List.mem_of_mem_getLast? hc)).1

theorem after (t : Str) : Escape.after false (attr ++ '=' :: t) = Escape.after false t := by
  rw [after_append, after_of_not_mem (h.not_mem (by simp)), after_cons_of_ne (by decide)]

theorem guards {d : Char} (hd : d ∈ [',', '+']) {t : Str} :
    Guards d false (attr ++ '=' :: t) ↔ Guards d false t := by
  have hmem : d ∉ attr := h.not_mem (List.mem_append_left ['=', '\\'] hd)
  have hne : '=' ≠ d := by
    simp only [List.mem_cons, List.not_mem_nil, or_false] at hd
    rcases hd with rfl | rfl <;> decide
  rw [guards_append, after_of_not_mem (h.not_mem (by simp)), guards_cons_of_ne (by decide)]
  simp [guards_of_not_mem hmem false, hne]

theorem parseAva (t full : Str) :
    Naming.parseAva (Str.trim (attr ++ '=' :: t)) full = .ok ⟨attr, unescape (Str.trim t)⟩ := by
  obtain ⟨m, w, rfl, hw, htrim⟩ := trim_assertion h.ne_nil h.trimmed t
  rw [htrim, parseAva_eq_ok, Str.trim_append_blank hw]
  refine ⟨attr, m, rfl, guards_of_not_mem (h.not_mem (by simp)) _,
    after_of_not_mem (h.not_mem (by simp)), ?_, ?_⟩
  · rw [Str.trim_of_trimmed h.trimmed]
    exact h.ne_nil
  · rw [Str.trim_of_trimmed h.trimmed, h.lower]

end PlainAttr

theorem parseRdn_eq_ok_of_not_blank {full t : Str} {r : Rdn} (ht : ¬ t.Blank) :
    parseRdn full t = .ok r ↔ ∃ avas,
      List.Forall₂ (fun u a => parseAva (Str.trim u) full = .ok a) (splitUnescaped t '+') avas ∧
      r = ⟨avas.insertionSort fun a b => a.le b⟩ := by
  have hne : Str.trim t ≠ [] := fun h => ht (Str.trim_eq_nil_iff.mp h)
  obtain ⟨w, w', hw, hw', hpad⟩ := Str.exists_pad t
  obtain ⟨qs, hqs, hjoin, hf⟩ :=
    (framed_splitUnescaped (d := '+') (by decide) (Str.trim t)).pad (by decide) hw hw'
  rw [join_splitUnescaped (by decide), ← hpad] at hjoin
  rw [(splitUnescaped_eq_iff (by decide)).mpr ⟨hqs, hjoin⟩, parseRdn_eq_ok]
  simp only [hne, not_false_eq_true, true_and, ne_eq]
  refine exists_congr fun avas => and_congr_left fun _ => ?_
  refine (forall₂_congr_left hf fun q u a h => ?_).symm
  rw [h]

theorem splitUnescaped_eq_singleton {d : Char} (hd : d ≠ '\\') {s p : Str}
    (h : splitUnescaped s d = [p]) : p = s ∧ Guards d false s := by
  obtain ⟨hframed, hjoin⟩ := (splitUnescaped_eq_iff hd).mp h
  rw [Str.join_singleton] at hjoin
  exact ⟨hjoin, hjoin ▸ framed_singleton.mp hframed⟩

theorem splitUnescaped_of_guards {d : Char} (hd : d ≠ '\\') {s : Str} (h : Guards d false s) :
    splitUnescaped s d = [s] :=
  (splitUnescaped_eq_iff hd).mpr ⟨framed_singleton.mpr h, Str.join_singleton d s⟩

theorem not_blank_assertion (attr t : Str) : ¬ Str.Blank (attr ++ '=' :: t) := fun h =>
  absurd (h '=' (by simp)) (by decide)

namespace PlainAttr

variable {attr : Str} (h : PlainAttr attr)

include h

theorem parseRdn_single_iff {full t : Str} {r : Rdn} :
    (parseRdn full (attr ++ '=' :: t) = .ok r ∧ r.avas.length = 1) ↔
      Guards '+' false t ∧ r = ⟨[⟨attr, unescape (Str.trim t)⟩]⟩ := by
  rw [parseRdn_eq_ok_of_not_blank (not_blank_assertion attr t)]
  constructor
  · rintro ⟨⟨avas, hf, rfl⟩, hlen⟩
    rw [List.length_insertionSort, ← hf.length_eq] at hlen
    obtain ⟨p, hp⟩ := List.length_eq_one_iff.mp hlen
    obtain ⟨rfl, hguards⟩ := splitUnescaped_eq_singleton (by decide) hp
    rw [hp] at hf
    obtain _ | ⟨ha, _ | _⟩ := hf
    cases ha.symm.trans (h.parseAva t full)
    exact ⟨(h.guards (by simp)).mp hguards, rfl⟩
  · rintro ⟨hguards, rfl⟩
    rw [splitUnescaped_of_guards (by decide) ((h.guards (by simp)).mpr hguards)]
    exact ⟨⟨[_], .cons (h.parseAva t full) .nil, rfl⟩, rfl⟩

theorem parse_eq_self_iff {t : Str} :
    (∃ r, Dn.parse (attr ++ '=' :: t) = .ok ⟨[r]⟩ ∧ r.norm = [Ava.norm ⟨attr, t⟩]) ↔
      ',' ∉ t ∧ '+' ∉ t ∧ Literal (Str.trim t) := by
  have hlit : ∀ {d : Char}, Str.isWhitespace d = false → Literal (Str.trim t) →
      Guards d false t → d ∉ t := by
    intro d hd hl hg hm
    exact hl.not_mem (guards_trim hg) (Str.mem_trim hd hm)
  simp only [Dn.parse_eq_ok_of_not_blank (not_blank_assertion attr t) []]
  constructor
  · rintro ⟨r, hf, hnorm⟩
    obtain ⟨p, hp⟩ := List.length_eq_one_iff.mp hf.length_eq
    obtain ⟨rfl, hguards⟩ := splitUnescaped_eq_singleton (by decide) hp
    rw [hp] at hf
    obtain _ | ⟨hr, -⟩ := hf
    have hlen : r.avas.length = 1 := by simpa [Rdn.norm] using congrArg List.length hnorm
    obtain ⟨hplus, rfl⟩ := h.parseRdn_single_iff.mp ⟨hr, hlen⟩
    have hl : Literal (Str.trim t) := by
      have hvalue := congrArg (fun l => (l.map fun a => a.2.length).sum) hnorm
      have := Str.length_trim_le (unescape (Str.trim t))
      simp only [Rdn.norm, Ava.norm, Ava.normValue, List.map_cons, List.map_nil, List.sum_cons,
        List.sum_nil, Str.length_asciiLower] at hvalue
      exact literal_of_length_unescape (by omega)
    exact ⟨hlit (by decide) hl ((h.guards (by simp)).mp hguards), hlit (by decide) hl hplus, hl⟩
  · rintro ⟨hcomma, hplus, hl⟩
    have hr : parseRdn [] (attr ++ '=' :: t) = .ok ⟨[⟨attr, unescape (Str.trim t)⟩]⟩ :=
      (h.parseRdn_single_iff.mpr ⟨guards_of_not_mem hplus false, rfl⟩).1
    refine ⟨⟨[⟨attr, unescape (Str.trim t)⟩]⟩, ?_, ?_⟩
    · rw [splitUnescaped_of_guards (by decide)
        ((h.guards (by simp)).mpr (guards_of_not_mem hcomma false))]
      exact .cons hr .nil
    · simp [Rdn.norm, Ava.norm, Ava.normValue, unescape_of_literal hl]

theorem length_norm_le {full t v : Str} {r : Rdn} {a : Str}
    (hr : parseRdn full (attr ++ '=' :: t) = .ok r) (hnorm : r.norm = [(a, v)]) :
    v.length ≤ (Str.trim t).length := by
  have hlen : r.avas.length = 1 := by simpa [Rdn.norm] using congrArg List.length hnorm
  obtain ⟨-, rfl⟩ := h.parseRdn_single_iff.mp ⟨hr, hlen⟩
  have hv : (Str.trim (unescape (Str.trim t))).asciiLower = v := by
    simpa [Rdn.norm, Ava.norm, Ava.normValue] using congrArg (List.map Prod.snd) hnorm
  rw [← hv, Str.length_asciiLower]
  exact (Str.length_trim_le _).trans (length_unescape_le _)

end PlainAttr

section Placed

variable {attr name : Str} {base d : Dn}

def placed (attr name : Str) (base : Dn) : Str := attr ++ '=' :: name ++ ',' :: base.display

theorem not_norm_of_cut (h : PlainAttr attr) {p rest full : Str} {r : Rdn}
    (hs : attr ++ '=' :: name = p ++ ',' :: rest) (hr : parseRdn full p = .ok r) :
    r.norm ≠ [Ava.norm ⟨attr, name⟩] := by
  intro hnorm
  rw [← List.singleton_append, ← List.append_assoc, List.append_eq_append_iff] at hs
  obtain ⟨t, rfl, hname⟩ | ⟨t, hattr, ht⟩ := hs
  · rw [List.append_assoc, List.singleton_append] at hr
    have hle := h.length_norm_le hr hnorm
    have hlt := Str.length_trim_lt (c := ',') (by decide) t rest
    rw [← hname] at hlt
    simp only [Ava.normValue, Str.length_asciiLower] at hle
    omega
  · cases t with
    | nil =>
      rw [List.append_nil] at hattr
      rw [← hattr] at hr
      have hle := h.length_norm_le hr hnorm
      have hlt := Str.length_trim_lt (c := ',') (by decide) [] rest
      rw [List.nil_append] at ht hlt
      rw [ht] at hlt
      simp only [Ava.normValue, Str.length_asciiLower] at hle
      have hnil : (Str.trim []).length = 0 := rfl
      omega
    | cons c t =>
      obtain rfl : ',' = c := by simpa using congrArg List.head? ht
      have hmem : ',' ∈ attr ++ ['='] := by
        rw [hattr]
        simp
      simp [h.not_mem (c := ',') (by simp)] at hmem

theorem not_norm_of_open (h : PlainAttr attr) (hopen : after false name = true) {full : Str}
    {r : Rdn} (hr : parseRdn full (attr ++ '=' :: (name ++ [','])) = .ok r) :
    r.norm ≠ [Ava.norm ⟨attr, name⟩] := by
  intro hnorm
  have hlen : r.avas.length = 1 := by simpa [Rdn.norm] using congrArg List.length hnorm
  obtain ⟨-, rfl⟩ := h.parseRdn_single_iff.mp ⟨hr, hlen⟩
  have hv : (Str.trim (unescape (Str.trim (name ++ [','])))).asciiLower =
      (Str.trim name).asciiLower := by
    simpa [Rdn.norm, Ava.norm, Ava.normValue] using congrArg (List.map Prod.snd) hnorm
  have hlast := congrArg List.getLast? hv
  obtain ⟨u, hu⟩ := List.getLast?_eq_some_iff.mp (getLast?_of_open hopen)
  obtain ⟨w, hw⟩ := List.getLast?_eq_some_iff.mp
    (getLast?_unescape (c := ',') (by decide) (by decide) (name.dropWhile Str.isWhitespace))
  rw [Str.trim_append_singleton (by decide), hw, hu] at hlast
  simp only [Str.asciiLower, List.getLast?_map, Str.getLast?_trim_append (c := ',') (by decide),
    Str.getLast?_trim_append (c := '\\') (by decide)] at hlast
  exact absurd hlast (by decide)

theorem Dn.length_rdns_of_parse_display {b : Dn} (hbase : base.Wf) (hne : base.rdns ≠ [])
    (hb : Dn.parse base.display = .ok b) : b.rdns.length = base.rdns.length := by
  have hf := (Dn.parse_eq_ok_of_not_blank (hbase.not_blank_display hne) []).mp hb
  rw [← hf.length_eq, hbase.splitUnescaped_display hne, List.length_map]

theorem Dn.parse_placed_root (h : PlainAttr attr) (hname : after false name = false)
    (hroot : base.rdns = []) : Dn.parse (placed attr name base) ≠ .ok d := by
  intro hd
  have hdisp : base.display = [] := by simp [Dn.display, hroot]
  rw [placed, hdisp, Dn.parse_eq_ok_of_not_blank (not_blank_prefixed _ _) [],
    splitUnescaped_append (by decide) ((h.after name).trans hname), forall₂_append_left_iff] at hd
  obtain ⟨_, _, -, _ | ⟨hr, -⟩, -⟩ := hd
  cases hr

theorem Dn.same_placed_closed_iff (h : PlainAttr attr) (hbase : base.Wf)
    (hname : after false name = false) (hd : Dn.parse (placed attr name base) = .ok d) :
    d.Same ⟨⟨[⟨attr, name⟩]⟩ :: base.rdns⟩ ↔
      (',' ∉ name ∧ '+' ∉ name ∧ Literal (Str.trim name)) ∧ base.Displays := by
  by_cases hne : base.rdns = []
  · exact absurd hd (Dn.parse_placed_root h hname hne)
  obtain ⟨a, b, ha, hb, rfl⟩ := (Dn.parse_prefixed (not_blank_assertion attr name)
    ((h.after name).trans hname) hbase hne).mp hd
  have hlen := Dn.length_rdns_of_parse_display hbase hne hb
  have hsplit : Dn.Same ⟨a.rdns ++ b.rdns⟩ ⟨⟨[⟨attr, name⟩]⟩ :: base.rdns⟩ ↔
      a.norm = [[Ava.norm ⟨attr, name⟩]] ∧ b.norm = base.norm := by
    have hb' : (b.rdns.map Rdn.norm).length = (base.rdns.map Rdn.norm).length := by simpa using hlen
    simp only [Dn.Same, Dn.norm, List.map_append, List.map_cons]
    constructor
    · intro heq
      exact List.append_inj' (heq.trans (List.singleton_append (l := _)).symm) hb'
    · rintro ⟨ha, hb⟩
      rw [ha, hb]
      rfl
  rw [hsplit, ← h.parse_eq_self_iff]
  refine and_congr ?_ ?_
  · constructor
    · intro hnorm
      obtain ⟨r, hr⟩ : ∃ r, a.rdns = [r] := by
        rw [← List.length_eq_one_iff]
        simpa [Dn.norm] using congrArg List.length hnorm
      refine ⟨r, by rw [ha, ← hr], ?_⟩
      simpa [Dn.norm, hr] using hnorm
    · rintro ⟨r, hr, hnorm⟩
      cases ha.symm.trans hr
      simpa [Dn.norm] using hnorm
  · constructor
    · intro hsame
      exact ⟨b, hb, hsame⟩
    · rintro ⟨b', hb', hsame⟩
      cases hb.symm.trans hb'
      exact hsame

theorem Dn.same_of_parse_placed_iff (h : PlainAttr attr) (hbase : base.Wf)
    (hd : Dn.parse (placed attr name base) = .ok d) :
    d.Same ⟨⟨[⟨attr, name⟩]⟩ :: base.rdns⟩ ↔
      after false name = false ∧ (',' ∉ name ∧ '+' ∉ name ∧ Literal (Str.trim name)) ∧
        base.Displays := by
  cases hname : after false name with
  | false => simpa using Dn.same_placed_closed_iff h hbase hname hd
  | true =>
    refine iff_of_false ?_ (by simp)
    intro hsame
    have hafter := (h.after name).trans hname
    rw [placed, Dn.parse_eq_ok_of_not_blank (not_blank_prefixed _ _) []] at hd
    obtain ⟨ps, p, q, qs, hps, hqs, hsplit⟩ :=
      splitUnescaped_append_open (t := base.display) (d := ',') (by decide) hafter
    have hjoin := join_splitUnescaped (d := ',') (by decide) (attr ++ '=' :: name)
    rw [hsplit] at hd
    have hnorm : d.rdns.map Rdn.norm = [Ava.norm ⟨attr, name⟩] :: base.rdns.map Rdn.norm := hsame
    generalize d.rdns = rs at hd hnorm
    cases ps with
    | cons p₀ ps =>
      -- the first part ends before the name does
      obtain _ | ⟨hr, -⟩ := hd
      simp only [List.map_cons, List.cons.injEq] at hnorm
      obtain ⟨p₁, ps', hcons⟩ := List.exists_cons_of_ne_nil (List.append_ne_nil_of_right_ne_nil ps
        (List.cons_ne_nil p []))
      rw [hps, List.cons_append, hcons, Str.join_cons_cons] at hjoin
      exact not_norm_of_cut h hjoin.symm hr hnorm.1
    | nil =>
      obtain ⟨rfl, -⟩ := splitUnescaped_eq_singleton (by decide) hps
      obtain _ | ⟨hr, hrs⟩ := hd
      simp only [List.map_cons, List.cons.injEq] at hnorm
      by_cases hne : base.rdns = []
      · have hdisp : base.display = [] := by simp [Dn.display, hne]
        rw [hdisp] at hqs
        obtain ⟨rfl, -⟩ : [] = q ∧ [] = qs := by
          simpa [splitUnescaped, splitUnescapedFrom] using hqs
        rw [List.append_assoc, List.cons_append] at hr
        exact not_norm_of_open h hname hr hnorm.1
      · have hlen := congrArg List.length hqs
        have hlen' := congrArg List.length hnorm.2
        rw [hbase.splitUnescaped_display hne] at hlen
        simp only [List.length_map, List.length_cons] at hlen hlen'
        have := hrs.length_eq
        omega

end Placed

end IronDirectory.Naming
