import IronDirectory.Defs.Base.Text

namespace IronDirectory.Base.Str

structure Trimmed (s : Str) : Prop where
  head : ∀ c ∈ s.head?, isWhitespace c = false
  last : ∀ c ∈ s.getLast?, isWhitespace c = false

def Blank (s : Str) : Prop := ∀ c ∈ s, isWhitespace c = true

theorem dropWhile_append_blank {w s : Str} (hw : Blank w) :
    (w ++ s).dropWhile isWhitespace = s.dropWhile isWhitespace := by
  induction w with
  | nil => rfl
  | cons c w ih =>
    rw [List.cons_append, List.dropWhile_cons_of_pos (hw c List.mem_cons_self)]
    exact ih fun d hd => hw d (List.mem_cons_of_mem _ hd)

theorem rdropWhile_append_blank {w s : Str} (hw : Blank w) :
    (s ++ w).rdropWhile isWhitespace = s.rdropWhile isWhitespace := by
  rw [List.rdropWhile, List.rdropWhile, List.reverse_append, dropWhile_append_blank]
  intro c hc
  exact hw c (List.mem_reverse.mp hc)

theorem dropWhile_of_head {s : Str} (h : ∀ c ∈ s.head?, isWhitespace c = false) :
    s.dropWhile isWhitespace = s := by
  cases s with
  | nil => rfl
  | cons c s => exact List.dropWhile_cons_of_neg (by simp [h c rfl])

theorem rdropWhile_of_last {s : Str} (h : ∀ c ∈ s.getLast?, isWhitespace c = false) :
    s.rdropWhile isWhitespace = s := by
  rw [List.rdropWhile, dropWhile_of_head, List.reverse_reverse]
  intro c hc
  exact h c (by simpa using hc)

theorem trim_pad {w t w' : Str} (hw : Blank w) (ht : Trimmed t) (hw' : Blank w') :
    trim (w ++ (t ++ w')) = t := by
  rw [trim, dropWhile_append_blank hw]
  cases t with
  | nil =>
    have h : w'.dropWhile isWhitespace = [] := List.dropWhile_eq_nil_iff.mpr hw'
    rw [List.nil_append, h]
    rfl
  | cons c t =>
    have hhead : (c :: t ++ w').dropWhile isWhitespace = c :: t ++ w' := dropWhile_of_head ht.head
    rw [hhead, rdropWhile_append_blank hw', rdropWhile_of_last ht.last]

theorem trimmed_trim (s : Str) : Trimmed (trim s) where
  last := by
    intro c hc
    obtain ⟨hne, rfl⟩ := List.mem_getLast?_eq_getLast hc
    exact Bool.eq_false_iff.mpr (List.rdropWhile_last_not isWhitespace _ hne)
  head := by
    intro c hc
    have hpre := List.rdropWhile_prefix isWhitespace (l := s.dropWhile isWhitespace)
    have hmem : c ∈ (s.dropWhile isWhitespace).head? := by
      cases ht : trim s with
      | nil => simp [ht] at hc
      | cons d t =>
        rw [trim] at ht
        rw [ht] at hpre
        obtain ⟨z, hz⟩ := hpre
        obtain rfl : d = c := by simpa [trim, ht] using hc
        rw [← hz]
        rfl
    have hnot := List.head?_dropWhile_not isWhitespace s
    rw [Option.mem_def.mp hmem] at hnot
    simpa using hnot

theorem exists_pad (s : Str) : ∃ w w', Blank w ∧ Blank w' ∧ s = w ++ (trim s ++ w') := by
  refine ⟨s.takeWhile isWhitespace, (s.dropWhile isWhitespace).rtakeWhile isWhitespace, ?_, ?_, ?_⟩
  · intro c hc
    exact List.mem_takeWhile_imp hc
  · intro c hc
    exact List.mem_rtakeWhile_imp hc
  · rw [trim, List.rdropWhile_append_rtakeWhile, List.takeWhile_append_dropWhile]

theorem Blank.append {w w' : Str} (hw : Blank w) (hw' : Blank w') : Blank (w ++ w') := by
  intro c hc
  exact (List.mem_append.mp hc).elim (hw c) (hw' c)

theorem trim_blank_append {w : Str} (hw : Blank w) (s : Str) : trim (w ++ s) = trim s := by
  obtain ⟨a, b, ha, hb, hs⟩ := exists_pad s
  have h := trim_pad (hw.append ha) (trimmed_trim s) hb
  rwa [List.append_assoc, ← hs] at h

theorem trim_append_blank {w : Str} (hw : Blank w) (s : Str) : trim (s ++ w) = trim s := by
  obtain ⟨a, b, ha, hb, hs⟩ := exists_pad s
  have h := trim_pad ha (trimmed_trim s) (hb.append hw)
  rwa [← List.append_assoc (trim s), ← List.append_assoc a, ← hs] at h

theorem trim_of_trimmed {s : Str} (h : Trimmed s) : trim s = s := by
  have hnil : Blank [] := by simp [Blank]
  simpa using trim_pad hnil h hnil

@[simp] theorem trim_trim (s : Str) : trim (trim s) = trim s := trim_of_trimmed (trimmed_trim s)

theorem length_trim_le (s : Str) : (trim s).length ≤ s.length := by
  obtain ⟨w, w', -, -, hs⟩ := exists_pad s
  have := congrArg List.length hs
  simp only [List.length_append] at this
  omega

theorem trim_eq_of_length {s : Str} (h : s.length ≤ (trim s).length) : trim s = s := by
  obtain ⟨w, w', -, -, hs⟩ := exists_pad s
  have hlen := congrArg List.length hs
  simp only [List.length_append] at hlen
  obtain rfl : w = [] := List.length_eq_zero_iff.mp (by omega)
  obtain rfl : w' = [] := List.length_eq_zero_iff.mp (by omega)
  simpa using hs.symm

theorem trim_eq_nil_iff {s : Str} : trim s = [] ↔ Blank s := by
  constructor
  · intro h
    obtain ⟨w, w', hw, hw', hs⟩ := exists_pad s
    rw [h, List.nil_append] at hs
    rw [hs]
    intro c hc
    exact (List.mem_append.mp hc).elim (hw c) (hw' c)
  · intro h
    have hnil : Blank [] := by simp [Blank]
    have ht : Trimmed [] := ⟨by simp, by simp⟩
    simpa using trim_pad h ht hnil

theorem mem_of_mem_trim {c : Char} {s : Str} (h : c ∈ trim s) : c ∈ s :=
  (List.dropWhile_sublist _).subset ((List.rdropWhile_prefix _ _).subset h)

theorem mem_trim {c : Char} (hc : isWhitespace c = false) {s : Str} (h : c ∈ s) : c ∈ trim s := by
  obtain ⟨w, w', hw, hw', hs⟩ := exists_pad s
  rw [hs, List.mem_append, List.mem_append] at h
  rcases h with h | h | h
  · simp [hw c h] at hc
  · exact h
  · simp [hw' c h] at hc

theorem trim_append_singleton {c : Char} (hc : isWhitespace c = false) (s : Str) :
    trim (s ++ [c]) = s.dropWhile isWhitespace ++ [c] := by
  have hdrop : (s ++ [c]).dropWhile isWhitespace = s.dropWhile isWhitespace ++ [c] := by
    rw [List.dropWhile_append]
    split
    · next h => simp [List.isEmpty_iff.mp h, hc]
    · rfl
  rw [trim, hdrop, rdropWhile_of_last]
  simp [hc]

theorem getLast?_trim_append {c : Char} (hc : isWhitespace c = false) (s : Str) :
    (trim (s ++ [c])).getLast? = some c := by
  rw [trim_append_singleton hc, List.getLast?_concat]

theorem length_trim_le_append (s : Str) (c : Char) :
    (trim s).length ≤ (trim (s ++ [c])).length := by
  cases hc : isWhitespace c with
  | true => rw [trim_append_blank (by simpa [Blank] using hc)]
  | false =>
    rw [trim_append_singleton hc, List.length_append]
    exact Nat.le_add_right_of_le (List.rdropWhile_prefix isWhitespace _).length_le

theorem length_trim_lt {c : Char} (hc : isWhitespace c = false) (s t : Str) :
    (trim s).length < (trim (s ++ c :: t)).length := by
  induction t using List.reverseRecOn with
  | nil =>
    rw [trim_append_singleton hc, List.length_append, List.length_singleton, Nat.lt_succ_iff]
    exact (List.rdropWhile_prefix isWhitespace _).length_le
  | append_singleton t d ih =>
    have h := length_trim_le_append (s ++ c :: t) d
    rw [List.append_assoc, List.cons_append] at h
    exact ih.trans_le h

theorem toLower_eq_iff {d : Char} (h : d.isAlpha = false) (c : Char) : c.toLower = d ↔ c = d := by
  have hself : ∀ c : Char, c.isAlpha = false → c.toLower = c := by
    intro c hc
    apply Char.toLower_eq_of_not_isUpper
    intro hu
    simp [Char.isAlpha, hu] at hc
  constructor
  · intro hcd
    have hc : c.isAlpha = false := by rw [← Char.isAlpha_toLower_eq_isAlpha, hcd, h]
    rw [← hcd, hself c hc]
  · rintro rfl
    exact hself c h

theorem toNat_of_isAlpha {c : Char} (h : c.isAlpha = true) : 65 ≤ c.toNat ∧ c.toNat ≤ 122 := by
  simp only [Char.isAlpha, Char.isUpper, Char.isLower, Bool.or_eq_true, Bool.and_eq_true,
    decide_eq_true_eq, ge_iff_le, UInt32.le_iff_toNat_le] at h
  change 65 ≤ c.toNat ∧ c.toNat ≤ 90 ∨ 97 ≤ c.toNat ∧ c.toNat ≤ 122 at h
  omega

theorem isWhitespace_of_isAlpha {c : Char} (h : c.isAlpha = true) : isWhitespace c = false := by
  have hn := toNat_of_isAlpha h
  simp only [isWhitespace, Bool.or_eq_false_iff, Bool.and_eq_false_iff, decide_eq_false_iff_not,
    beq_eq_false_iff_ne]
  omega

@[simp] theorem isWhitespace_toLower (c : Char) : isWhitespace c.toLower = isWhitespace c := by
  cases h : c.isAlpha with
  | true =>
    rw [isWhitespace_of_isAlpha h, isWhitespace_of_isAlpha]
    rw [Char.isAlpha_toLower_eq_isAlpha, h]
  | false => rw [(toLower_eq_iff h c).mpr rfl]

theorem dropWhile_asciiLower (s : Str) :
    s.asciiLower.dropWhile isWhitespace = (s.dropWhile isWhitespace).map Char.toLower := by
  have hws : isWhitespace ∘ Char.toLower = isWhitespace := funext isWhitespace_toLower
  rw [asciiLower, List.dropWhile_map, hws]

theorem trim_asciiLower (s : Str) : trim s.asciiLower = (trim s).asciiLower := by
  have hrev : ∀ t : Str, (t.map Char.toLower).rdropWhile isWhitespace =
      (t.rdropWhile isWhitespace).map Char.toLower := by
    intro t
    rw [List.rdropWhile, List.rdropWhile, ← List.map_reverse, ← asciiLower, dropWhile_asciiLower,
      List.map_reverse]
  rw [trim, dropWhile_asciiLower, hrev, trim, asciiLower]

theorem mem_asciiLower_iff {d : Char} (h : d.isAlpha = false) {s : Str} :
    d ∈ s.asciiLower ↔ d ∈ s := by
  simp [asciiLower, toLower_eq_iff h]

@[simp] theorem length_asciiLower (s : Str) : s.asciiLower.length = s.length := List.length_map _

@[simp] theorem asciiLower_eq_nil_iff {s : Str} : s.asciiLower = [] ↔ s = [] := List.map_eq_nil_iff

theorem Trimmed.asciiLower {s : Str} (h : Trimmed s) : Trimmed s.asciiLower where
  head := by
    intro c hc
    rw [Str.asciiLower, List.head?_map, Option.mem_map] at hc
    obtain ⟨d, hd, rfl⟩ := hc
    rw [isWhitespace_toLower, h.head d hd]
  last := by
    intro c hc
    rw [Str.asciiLower, List.getLast?_map, Option.mem_map] at hc
    obtain ⟨d, hd, rfl⟩ := hc
    rw [isWhitespace_toLower, h.last d hd]

@[simp] theorem join_nil (c : Char) : join c [] = [] := rfl

@[simp] theorem join_singleton (c : Char) (p : Str) : join c [p] = p := by simp [join]

theorem join_cons_cons (c : Char) (p q : Str) (ps : List Str) :
    join c (p :: q :: ps) = p ++ c :: join c (q :: ps) := by
  simp [join]

theorem join_cons_head (c d : Char) (p : Str) (ps : List Str) :
    join c ((d :: p) :: ps) = d :: join c (p :: ps) := by
  cases ps with
  | nil => simp
  | cons q ps => simp [join_cons_cons]

theorem join_append {c : Char} {ps qs : List Str} (hp : ps ≠ []) (hq : qs ≠ []) :
    join c (ps ++ qs) = join c ps ++ c :: join c qs := by
  induction ps with
  | nil => exact absurd rfl hp
  | cons p ps ih =>
    cases ps with
    | nil =>
      cases qs with
      | nil => exact absurd rfl hq
      | cons q qs => simp [join_cons_cons]
    | cons p' ps =>
      have h := ih (by simp)
      simp only [List.cons_append] at h ⊢
      rw [join_cons_cons, h, join_cons_cons, List.append_assoc, List.cons_append]

theorem length_join (c : Char) {ps : List Str} (h : ps ≠ []) :
    (join c ps).length + 1 = (ps.map fun p => p.length + 1).sum := by
  induction ps with
  | nil => exact absurd rfl h
  | cons p ps ih =>
    cases ps with
    | nil => simp
    | cons q ps =>
      have := ih (by simp)
      simp only [join_cons_cons, List.length_append, List.length_cons, List.map_cons,
        List.sum_cons] at this ⊢
      omega

theorem join_inj_of_length {c : Char} {ps qs : List Str}
    (hlen : ps.map List.length = qs.map List.length) (h : join c ps = join c qs) : ps = qs := by
  induction ps generalizing qs with
  | nil =>
    cases qs with
    | nil => rfl
    | cons q qs => simp at hlen
  | cons p ps ih =>
    cases qs with
    | nil => simp at hlen
    | cons q qs =>
      simp only [List.map_cons, List.cons.injEq] at hlen
      cases ps with
      | nil =>
        cases qs with
        | nil => simpa using h
        | cons q' qs => simp at hlen
      | cons p' ps =>
        cases qs with
        | nil => simp at hlen
        | cons q' qs =>
          rw [join_cons_cons, join_cons_cons] at h
          obtain ⟨hpq, htail⟩ := List.append_inj h hlen.1
          rw [hpq, ih hlen.2 (List.cons.inj htail).2]

theorem getLast?_join {c : Char} {ps : List Str} (h : ps ≠ []) (hl : ps.getLast h ≠ []) :
    (join c ps).getLast? = (ps.getLast h).getLast? := by
  induction ps with
  | nil => exact absurd rfl h
  | cons p ps ih =>
    cases ps with
    | nil => simp
    | cons q ps =>
      rw [List.getLast_cons (List.cons_ne_nil q ps)] at hl ⊢
      rw [join_cons_cons, List.getLast?_append_cons, List.getLast?_cons, ih (by simp) hl,
        List.getLast?_eq_some_getLast hl]
      rfl

theorem trimmed_join {c : Char} {ps : List Str} (hp : ∀ p ∈ ps, Trimmed p ∧ p ≠ []) :
    Trimmed (join c ps) where
  head := by
    intro d hd
    match ps, hp with
    | [], _ => simp at hd
    | [p], hp => exact (hp p (by simp)).1.head d (by simpa using hd)
    | p :: q :: ps, hp =>
      obtain ⟨ht, hne⟩ := hp p (by simp)
      obtain ⟨b, bs, rfl⟩ := List.exists_cons_of_ne_nil hne
      rw [join_cons_cons] at hd
      exact ht.head d hd
  last := by
    intro d hd
    by_cases h : ps = []
    · simp [h] at hd
    · obtain ⟨ht, hne⟩ := hp _ (List.getLast_mem h)
      rw [getLast?_join h hne] at hd
      exact ht.last d hd

theorem join_ne_nil {c : Char} {p : Str} {ps : List Str} (hp : p ≠ []) :
    join c (p :: ps) ≠ [] := by
  cases ps with
  | nil => simpa using hp
  | cons q ps => simp [join_cons_cons]

theorem not_mem_of_mem_splitOn {c : Char} {s p : Str} (h : p ∈ s.splitOn c) : c ∉ p := by
  induction s generalizing p with
  | nil =>
    obtain rfl : p = [] := by simpa [splitOn] using h
    simp
  | cons b s ih =>
    rw [splitOn, List.splitOn_cons_eq_if_modifyHead] at h
    split at h
    · cases List.mem_cons.mp h with
      | inl h => simp [h]
      | inr h => exact ih h
    case isFalse hb =>
      cases hs : List.splitOn c s with
      | nil => exact absurd hs (List.splitOn_ne_nil c s)
      | cons q qs =>
        rw [hs, List.modifyHead_cons, List.mem_cons] at h
        cases h with
        | inl h =>
          rw [h, List.mem_cons, not_or]
          exact ⟨fun hcb => hb (by simp [hcb]), ih (by rw [splitOn, hs]; exact List.mem_cons_self)⟩
        | inr h => exact ih (by rw [splitOn, hs]; exact List.mem_cons_of_mem _ h)

theorem mem_join_of_mem {c d : Char} {ps : List Str} {p : Str} (hp : p ∈ ps) (hd : d ∈ p) :
    d ∈ join c ps := by
  induction ps with
  | nil => simp at hp
  | cons q ps ih =>
    cases ps with
    | nil =>
      obtain rfl : p = q := by simpa using hp
      simpa using hd
    | cons q' ps =>
      rw [join_cons_cons, List.mem_append, List.mem_cons]
      cases List.mem_cons.mp hp with
      | inl h => exact .inl (h ▸ hd)
      | inr h => exact .inr (.inr (ih h))

theorem mem_join {c d : Char} {ps : List Str} (h : d ∈ join c ps) : d = c ∨ ∃ p ∈ ps, d ∈ p := by
  induction ps with
  | nil => simp at h
  | cons p ps ih =>
    cases ps with
    | nil => exact .inr ⟨p, by simp, by simpa using h⟩
    | cons q ps =>
      rw [join_cons_cons, List.mem_append, List.mem_cons] at h
      rcases h with h | h | h
      · exact .inr ⟨p, by simp, h⟩
      · exact .inl h
      · obtain h | ⟨r, hr, hd⟩ := ih h
        · exact .inl h
        · exact .inr ⟨r, List.mem_cons_of_mem _ hr, hd⟩

theorem join_append_part {c : Char} (qs : List Str) (u v : Str) (rs : List Str) :
    join c (qs ++ (u ++ c :: v) :: rs) = join c (qs ++ [u]) ++ c :: join c (v :: rs) := by
  have h : join c ((u ++ c :: v) :: rs) = u ++ c :: join c (v :: rs) := by
    cases rs with
    | nil => simp
    | cons r rs => simp [join_cons_cons]
  cases qs with
  | nil => simpa using h
  | cons q qs =>
    rw [join_append (by simp) (by simp), join_append (by simp) (by simp), h]
    simp

theorem isPrefix_join_iff {c : Char} {t : Str} {ps : List Str} :
    t ++ [c] <+: join c ps ↔
      (∃ qs rs, ps = qs ++ rs ∧ qs ≠ [] ∧ rs ≠ [] ∧ join c qs = t) ∨
      ∃ qs u v rs, ps = qs ++ (u ++ c :: v) :: rs ∧ join c (qs ++ [u]) = t := by
  constructor
  · induction ps generalizing t with
    | nil => simp
    | cons p ps ih =>
      cases ps with
      | nil =>
        rintro ⟨v, hv⟩
        exact .inr ⟨[], t, v, [], by simpa using hv.symm, by simp⟩
      | cons q ps =>
        rw [join_cons_cons]
        rintro ⟨z, hz⟩
        rw [List.append_assoc, List.append_eq_append_iff] at hz
        obtain ⟨w, rfl, hw⟩ | ⟨w, rfl, hw⟩ := hz
        · cases w with
          | nil => exact .inl ⟨[t], q :: ps, by simp, by simp, by simp, by simp⟩
          | cons d w =>
            obtain ⟨rfl, -⟩ := List.cons.inj hw
            exact .inr ⟨[], t, w, q :: ps, by simp, by simp⟩
        · cases w with
          | nil => exact .inl ⟨[p], q :: ps, by simp, by simp, by simp, by simp⟩
          | cons d w =>
            obtain ⟨rfl, hz⟩ := List.cons.inj hw
            have hj : ∀ {qs : List Str}, qs ≠ [] → join c (p :: qs) = p ++ c :: join c qs := by
              intro qs hqs
              have := join_append (c := c) (List.cons_ne_nil p []) hqs
              simpa using this
            obtain ⟨qs, rs, hps, hqs, hrs, rfl⟩ | ⟨qs, u, v, rs, hps, rfl⟩ :=
              ih (t := w) ⟨z, by rw [List.append_assoc]; exact hz.symm⟩
            · exact .inl ⟨p :: qs, rs, by rw [hps, List.cons_append], by simp, hrs, hj hqs⟩
            · exact .inr ⟨p :: qs, u, v, rs, by rw [hps, List.cons_append], hj (by simp)⟩
  · rintro (⟨qs, rs, rfl, hqs, hrs, rfl⟩ | ⟨qs, u, v, rs, rfl, rfl⟩)
    · rw [join_append hqs hrs]
      exact ⟨join c rs, by simp⟩
    · rw [join_append_part]
      exact ⟨join c (v :: rs), by simp⟩

theorem stripPrefix_eq_some_iff {s pfx rest : Str} :
    stripPrefix s pfx = some rest ↔ s = pfx ++ rest := by
  constructor
  · intro h
    rw [stripPrefix] at h
    split at h
    · next hpre =>
      obtain ⟨t, rfl⟩ := List.isPrefixOf_iff_prefix.mp hpre
      rw [← Option.some.inj h, List.drop_left]
    · cases h
  · rintro rfl
    exact stripPrefix_append pfx rest

theorem stripPrefix_eq_none_iff {s pfx : Str} : stripPrefix s pfx = none ↔ ¬ pfx <+: s := by
  simp [stripPrefix]

end IronDirectory.Base.Str
