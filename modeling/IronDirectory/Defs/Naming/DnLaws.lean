import IronDirectory.Defs.Base.Escape
import IronDirectory.Defs.Base.Lists
import IronDirectory.Defs.Base.Outcome
import IronDirectory.Defs.Naming.Dn

namespace IronDirectory.Naming

open Base Escape Lists Outcome

def pending (esc : Bool) : Str := if esc then ['\\'] else []

theorem splitUnescapedFrom_guarded {d : Char} {esc : Bool} {s : Str} (h : Guards d esc s)
    (cur : Str) : splitUnescapedFrom d esc cur s = [cur ++ (pending esc ++ s)] := by
  induction s generalizing esc cur with
  | nil => cases esc <;> simp [splitUnescapedFrom, pending]
  | cons c s ih =>
    cases esc with
    | true =>
      rw [splitUnescapedFrom, ih h]
      simp [pending]
    | false =>
      rw [splitUnescapedFrom]
      split
      case isTrue hc =>
        subst hc
        have hs : Guards d true s := h.2
        rw [ih hs]
        simp [pending]
      case isFalse hc =>
        rw [if_neg h.1, ih ((guards_cons_of_ne hc).mp h).2]
        simp [pending]

theorem splitUnescapedFrom_sep {d : Char} (hd : d ≠ '\\') {esc : Bool} {s : Str}
    (h : Guards d esc s) (hc : after esc s = false) (cur t : Str) :
    splitUnescapedFrom d esc cur (s ++ d :: t) =
      (cur ++ (pending esc ++ s)) :: splitUnescaped t d := by
  induction s generalizing esc cur with
  | nil =>
    obtain rfl : esc = false := by simpa using hc
    simp [splitUnescapedFrom, pending, hd, splitUnescaped]
  | cons c s ih =>
    cases esc with
    | true =>
      rw [List.cons_append, splitUnescapedFrom, ih h hc]
      simp [pending]
    | false =>
      rw [List.cons_append, splitUnescapedFrom]
      split
      case isTrue hb =>
        subst hb
        have hs : Guards d true s := h.2
        rw [ih hs hc]
        simp [pending]
      case isFalse hb =>
        rw [after_cons_of_ne hb] at hc
        rw [if_neg h.1, ih ((guards_cons_of_ne hb).mp h).2 hc]
        simp [pending]

theorem splitUnescaped_join {d : Char} (hd : d ≠ '\\') {ps : List Str} (h : Framed d ps) :
    splitUnescaped (Str.join d ps) d = ps := by
  induction ps with
  | nil => exact absurd rfl h.nonempty
  | cons p ps ih =>
    cases ps with
    | nil =>
      rw [Str.join_singleton, splitUnescaped, splitUnescapedFrom_guarded (framed_singleton.mp h)]
      simp [pending]
    | cons q ps =>
      obtain ⟨hg, hc, hps⟩ := framed_cons_cons.mp h
      rw [Str.join_cons_cons, splitUnescaped, splitUnescapedFrom_sep hd hg hc, ih hps]
      simp [pending]

theorem splitUnescaped_eq_iff {d : Char} (hd : d ≠ '\\') {s : Str} {ps : List Str} :
    splitUnescaped s d = ps ↔ Framed d ps ∧ Str.join d ps = s := by
  constructor
  · intro h
    obtain ⟨qs, hqs, rfl⟩ := exists_framed d s
    rw [splitUnescaped_join hd hqs] at h
    exact h ▸ ⟨hqs, rfl⟩
  · rintro ⟨h, rfl⟩
    exact splitUnescaped_join hd h

theorem framed_splitUnescaped {d : Char} (hd : d ≠ '\\') (s : Str) :
    Framed d (splitUnescaped s d) := ((splitUnescaped_eq_iff hd).mp rfl).1

theorem join_splitUnescaped {d : Char} (hd : d ≠ '\\') (s : Str) :
    Str.join d (splitUnescaped s d) = s := ((splitUnescaped_eq_iff hd).mp rfl).2

theorem findUnescapedFrom_guarded {d : Char} {esc : Bool} {s : Str} (h : Guards d esc s)
    (i : Nat) : findUnescapedFrom d esc i s = none := by
  induction s generalizing esc i with
  | nil => rfl
  | cons c s ih =>
    cases esc with
    | true => exact ih h _
    | false =>
      rw [findUnescapedFrom]
      split
      case isTrue hc =>
        subst hc
        have hs : Guards d true s := h.2
        exact ih hs _
      case isFalse hc => rw [if_neg h.1, ih ((guards_cons_of_ne hc).mp h).2]

theorem findUnescapedFrom_sep {d : Char} (hd : d ≠ '\\') {esc : Bool} {s : Str}
    (h : Guards d esc s) (hc : after esc s = false) (i : Nat) (t : Str) :
    findUnescapedFrom d esc i (s ++ d :: t) = some (i + s.length) := by
  induction s generalizing esc i with
  | nil =>
    obtain rfl : esc = false := by simpa using hc
    simp [findUnescapedFrom, hd]
  | cons c s ih =>
    have hlen : i + (c :: s).length = i + 1 + s.length := by
      rw [List.length_cons]
      omega
    cases esc with
    | true => rw [List.cons_append, findUnescapedFrom, ih h hc, hlen]
    | false =>
      rw [List.cons_append, findUnescapedFrom, hlen]
      split
      case isTrue hb =>
        subst hb
        have hs : Guards d true s := h.2
        exact ih hs hc _
      case isFalse hb =>
        rw [after_cons_of_ne hb] at hc
        rw [if_neg h.1, ih ((guards_cons_of_ne hb).mp h).2 hc]

theorem ne_backslash_of_copied {c : Char} {cs : Str} (h₁ : c = '\\' → cs = [] → False)
    (h₂ : ∀ a, c = '\\' → cs = [a] → False)
    (h₃ : ∀ a b cs', c = '\\' → cs = a :: b :: cs' → False) : c ≠ '\\' := by
  intro hc
  match cs with
  | [] => exact h₁ hc rfl
  | [a] => exact h₂ a hc rfl
  | a :: b :: cs' => exact h₃ a b cs' hc rfl

theorem unescape_cons_of_ne {c : Char} (hc : c ≠ '\\') (cs : Str) :
    unescape (c :: cs) = c :: unescape cs := by
  conv_lhs => unfold unescape
  split <;> simp_all

theorem getLast?_unescape {c : Char} (hx : Str.hexDigit? c = none) (hb : c ≠ '\\') (s : Str) :
    (unescape (s ++ [c])).getLast? = some c := by
  have hc : unescape [c] = [c] := unescape_cons_of_ne hb []
  fun_induction unescape s with
  | case1 => rw [List.nil_append, hc, List.getLast?_singleton]
  | case2 => rfl
  | case3 h₁ => simp [unescape, hx, hc]
  | case4 h₁ h₂ cs a b ha hb ih => simp [unescape, ha, hb, List.getLast?_cons, ih]
  | case5 h₁ h₂ cs hno ih =>
    rw [List.cons_append, List.cons_append, List.cons_append, unescape]
    split
    · next a b ha hb => exact absurd hb (hno a b ha)
    · rw [List.getLast?_cons, ← List.cons_append, ih]
      rfl
  | case6 c' cs h₁ h₂ h₃ ih =>
    rw [List.cons_append, unescape_cons_of_ne (ne_backslash_of_copied h₁ h₂ h₃),
      List.getLast?_cons, ih]
    rfl

theorem length_unescape_le (s : Str) : (unescape s).length ≤ s.length := by
  fun_induction unescape s with
  | case1 => simp
  | case2 => simp
  | case3 => simp
  | case4 h₁ h₂ cs a b ha hb ih => simp only [List.length_cons]; omega
  | case5 h₁ h₂ cs hno ih => simp only [List.length_cons] at ih ⊢; omega
  | case6 c cs _ _ _ ih => simpa using ih

theorem literal_of_length_unescape {s : Str} (h : s.length ≤ (unescape s).length) : Literal s := by
  fun_induction unescape s with
  | case1 => simp [Literal]
  | case2 => simp [Literal]
  | case3 => simp at h
  | case4 h₁ h₂ cs a b ha hb ih =>
    have := length_unescape_le cs
    simp only [List.length_cons] at h
    omega
  | case5 h₁ h₂ cs hno ih =>
    have := length_unescape_le (h₂ :: cs)
    simp only [List.length_cons] at h this
    omega
  | case6 c cs h₁ h₂ h₃ ih =>
    simp only [List.length_cons, Nat.add_le_add_iff_right] at h
    exact .of_cons (ne_backslash_of_copied h₁ h₂ h₃) (ih h)

theorem unescape_of_literal {s : Str} (h : Literal s) : unescape s = s := by
  fun_induction unescape s with
  | case1 => rfl
  | case2 => rfl
  | case3 h₁ => simp [Literal] at h
  | case4 h₁ h₂ cs a b ha hb ih => simp [Literal] at h
  | case5 h₁ h₂ cs hno ih => simp [Literal] at h
  | case6 c cs h₁ h₂ h₃ ih =>
    by_cases hcs : cs = []
    · simp [hcs, unescape]
    · rw [ih (h.cons hcs).2]

theorem parseAva_eq_ok {s full : Str} {a : Ava} :
    parseAva s full = .ok a ↔ ∃ raw rest, s = raw ++ '=' :: rest ∧ Guards '=' false raw ∧
      after false raw = false ∧ Str.trim raw ≠ [] ∧
      a = ⟨(Str.trim raw).asciiLower, unescape (Str.trim rest)⟩ := by
  by_cases hg : Guards '=' false s
  · have hno : ∀ raw rest, s = raw ++ '=' :: rest → after false raw ≠ false := by
      rintro raw rest rfl hc
      rw [guards_append, hc] at hg
      exact hg.2.1 rfl
    rw [parseAva, findUnescaped, findUnescapedFrom_guarded hg]
    constructor
    · intro h
      cases h
    · rintro ⟨raw, rest, hs, -, hc, -⟩
      exact absurd hc (hno raw rest hs)
  · obtain ⟨raw, rest, rfl, hraw, hc⟩ := exists_of_not_guards hg
    have hfind : findUnescaped (raw ++ '=' :: rest) '=' = some raw.length := by
      rw [findUnescaped, findUnescapedFrom_sep (by decide) hraw hc, Nat.zero_add]
    have huniq : ∀ raw' rest', raw ++ '=' :: rest = raw' ++ '=' :: rest' →
        Guards '=' false raw' → after false raw' = false → raw' = raw ∧ rest' = rest := by
      intro raw' rest' heq hg' hc'
      have hlen := findUnescapedFrom_sep (by decide) hg' hc' 0 rest'
      rw [← heq, ← findUnescaped, hfind, Option.some.injEq, Nat.zero_add] at hlen
      obtain ⟨h₁, h₂⟩ := List.append_inj heq hlen
      exact ⟨h₁.symm, (List.cons.inj h₂).2.symm⟩
    rw [parseAva, hfind]
    simp only [List.take_left, List.isEmpty_iff, Str.asciiLower_eq_nil_iff]
    have hdrop : List.drop (raw.length + 1) (raw ++ '=' :: rest) = rest := by simp
    rw [hdrop]
    constructor
    · intro h
      split at h
      · cases h
      case isFalse hne =>
        cases h
        exact ⟨raw, rest, rfl, hraw, hc, hne, rfl⟩
    · rintro ⟨raw', rest', heq, hg', hc', hne, rfl⟩
      obtain ⟨rfl, rfl⟩ := huniq raw' rest' heq hg' hc'
      rw [if_neg hne]

theorem parseRdn_eq_ok {full t : Str} {r : Rdn} :
    parseRdn full t = .ok r ↔ Str.trim t ≠ [] ∧ ∃ avas,
      List.Forall₂ (fun u a => parseAva (Str.trim u) full = .ok a)
        (splitUnescaped (Str.trim t) '+') avas ∧
      r = ⟨avas.insertionSort fun a b => a.le b⟩ := by
  rw [parseRdn]
  simp only [List.isEmpty_iff]
  split
  case isTrue h => simp [h]
  case isFalse h =>
    rw [bind_eq_ok]
    simp only [mapM_eq_ok, pure_eq_ok]
    constructor
    · rintro ⟨avas, hf, rfl⟩
      exact ⟨h, avas, hf, rfl⟩
    · rintro ⟨-, avas, hf, rfl⟩
      exact ⟨avas, hf, rfl⟩

theorem parseAva_full {s full : Str} (full' : Str) {a : Ava} :
    parseAva s full = .ok a ↔ parseAva s full' = .ok a := by
  rw [parseAva_eq_ok, parseAva_eq_ok]

theorem parseRdn_full {t full : Str} (full' : Str) {r : Rdn} :
    parseRdn full t = .ok r ↔ parseRdn full' t = .ok r := by
  simp only [parseRdn_eq_ok, parseAva_full full']

theorem after_of_blank {w : Str} (h : w.Blank) : after false w = false :=
  after_of_not_mem fun hm => absurd (h _ hm) (by decide)

theorem guards_trim {d : Char} {s : Str} (h : Guards d false s) : Guards d false (Str.trim s) := by
  obtain ⟨w, w', hw, -, hs⟩ := Str.exists_pad s
  rw [hs, guards_append, after_of_blank hw, guards_append] at h
  exact h.2.1

instance Ava.totalLe : Std.Total fun a b : Ava => a.le b = true where
  total := by
    intro a b
    simp only [Ava.le, Bool.or_eq_true, decide_eq_true_eq, Bool.and_eq_true, beq_iff_eq]
    rcases lt_trichotomy a.attr b.attr with h | h | h
    · exact .inl (.inl h)
    · rcases le_total a.normValue b.normValue with h' | h'
      · exact .inl (.inr ⟨h, h'⟩)
      · exact .inr (.inr ⟨h.symm, h'⟩)
    · exact .inr (.inl h)

instance Ava.transLe : IsTrans Ava fun a b : Ava => a.le b = true where
  trans := by
    intro a b c hab hbc
    simp only [Ava.le, Bool.or_eq_true, decide_eq_true_eq, Bool.and_eq_true, beq_iff_eq] at *
    rcases hab with h | ⟨h, h'⟩
    · rcases hbc with k | ⟨k, -⟩
      · exact .inl (h.trans k)
      · exact .inl (k ▸ h)
    · rcases hbc with k | ⟨k, k'⟩
      · exact .inl (h ▸ k)
      · exact .inr ⟨h.trans k, h'.trans k'⟩

structure Ava.Wf (a : Ava) : Prop where
  attr_ne_nil : a.attr ≠ []
  attr_trimmed : Str.Trimmed a.attr
  attr_lower : a.attr.asciiLower = a.attr
  attr_guards : ∀ d ∈ [',', '+', '='], Guards d false a.attr

structure Rdn.Wf (r : Rdn) : Prop where
  nonempty : r.avas ≠ []
  sorted : r.avas.Pairwise fun a b => a.le b = true
  avas : ∀ a ∈ r.avas, a.Wf

namespace Dn

def Wf (d : Dn) : Prop := ∀ r ∈ d.rdns, r.Wf

theorem parse_eq_ok {s : Str} {d : Dn} :
    parse s = .ok d ↔ (Str.trim s = [] ∧ d = root) ∨
      (Str.trim s ≠ [] ∧ List.Forall₂ (fun t r => parseRdn s t = .ok r)
        (splitUnescaped (Str.trim s) ',') d.rdns) := by
  rw [parse]
  simp only [List.isEmpty_iff]
  split
  case isTrue h => simp [h, eq_comm]
  case isFalse h =>
    rw [bind_eq_ok]
    simp only [mapM_eq_ok, pure_eq_ok]
    constructor
    · rintro ⟨rdns, hf, rfl⟩
      exact .inr ⟨h, hf⟩
    · rintro (⟨h', -⟩ | ⟨-, hf⟩)
      · exact absurd h' h
      · exact ⟨d.rdns, hf, rfl⟩

end Dn

theorem parseAva_wf {s full : Str} {a : Ava} (h : parseAva s full = .ok a)
    (hcomma : Guards ',' false s) (hplus : Guards '+' false s) : a.Wf := by
  obtain ⟨raw, rest, rfl, heq, -, hne, rfl⟩ := parseAva_eq_ok.mp h
  refine ⟨by simpa using hne, (Str.trimmed_trim raw).asciiLower, by simp, ?_⟩
  have hraw : ∀ d ∈ [',', '+', '='], Guards d false raw := by
    simp only [List.forall_mem_cons]
    exact ⟨(guards_append.mp hcomma).1, (guards_append.mp hplus).1, heq, by simp⟩
  intro d hd
  rw [guards_asciiLower]
  · exact guards_trim (hraw d hd)
  · simp only [List.mem_cons, List.not_mem_nil, or_false] at hd
    rcases hd with rfl | rfl | rfl <;> decide

theorem parseRdn_wf {full t : Str} {r : Rdn} (h : parseRdn full t = .ok r)
    (hcomma : Guards ',' false t) : r.Wf := by
  obtain ⟨hne, avas, hf, rfl⟩ := parseRdn_eq_ok.mp h
  have hframe : Framed '+' (splitUnescaped (Str.trim t) '+') := framed_splitUnescaped (by decide) _
  have hcommas : ∀ u ∈ splitUnescaped (Str.trim t) '+', Guards ',' false u := by
    rw [← guards_join (by decide) (by decide) hframe, join_splitUnescaped (by decide)]
    exact guards_trim hcomma
  refine ⟨?_, List.pairwise_insertionSort _ _, ?_⟩
  · intro hnil
    have hlen := congrArg List.length hnil
    rw [List.length_insertionSort, ← hf.length_eq] at hlen
    exact hframe.nonempty (List.length_eq_zero_iff.mp hlen)
  · intro a ha
    obtain ⟨u, hu, hua⟩ := exists_of_forall₂_mem hf ((List.mem_insertionSort _).mp ha)
    exact parseAva_wf hua (guards_trim (hcommas u hu)) (guards_trim (hframe.guards u hu))

theorem Dn.parse_wf {s : Str} {d : Dn} (h : parse s = .ok d) : d.Wf := by
  cases parse_eq_ok.mp h with
  | inl h =>
    rw [h.2]
    intro r hr
    simp [root] at hr
  | inr h =>
    intro r hr
    obtain ⟨t, ht, htr⟩ := exists_of_forall₂_mem h.2 hr
    exact parseRdn_wf htr ((framed_splitUnescaped (by decide) _).guards t ht)

end IronDirectory.Naming
