import IronDirectory.Defs.Base.TextLaws

namespace IronDirectory.Base.Escape

def after : Bool → Str → Bool
  | esc, [] => esc
  | true, _ :: s => after false s
  | false, c :: s => after (c == '\\') s

def Guards (d : Char) : Bool → Str → Prop
  | _, [] => True
  | true, _ :: s => Guards d false s
  | false, c :: s => c ≠ d ∧ Guards d (c == '\\') s

@[simp] theorem after_nil (esc : Bool) : after esc [] = esc := by cases esc <;> rfl

@[simp] theorem after_true_cons (c : Char) (s : Str) : after true (c :: s) = after false s := rfl

@[simp] theorem after_false_cons (c : Char) (s : Str) :
    after false (c :: s) = after (c == '\\') s := rfl

@[simp] theorem guards_nil (d : Char) (esc : Bool) : Guards d esc [] := by cases esc <;> trivial

@[simp] theorem guards_true_cons (d c : Char) (s : Str) :
    Guards d true (c :: s) ↔ Guards d false s := Iff.rfl

@[simp] theorem guards_false_cons (d c : Char) (s : Str) :
    Guards d false (c :: s) ↔ c ≠ d ∧ Guards d (c == '\\') s := Iff.rfl

@[simp] theorem after_append (esc : Bool) (s t : Str) :
    after esc (s ++ t) = after (after esc s) t := by
  induction s generalizing esc with
  | nil => simp
  | cons c s ih => cases esc <;> simp [ih]

@[simp] theorem guards_append {d : Char} {esc : Bool} {s t : Str} :
    Guards d esc (s ++ t) ↔ Guards d esc s ∧ Guards d (after esc s) t := by
  induction s generalizing esc with
  | nil => simp
  | cons c s ih => cases esc <;> simp [ih, and_assoc]

theorem after_cons_of_ne {c : Char} (hc : c ≠ '\\') (esc : Bool) (s : Str) :
    after esc (c :: s) = after false s := by
  cases esc with
  | true => rfl
  | false => rw [after_false_cons, beq_false_of_ne hc]

theorem guards_cons_of_ne {d c : Char} (hc : c ≠ '\\') {s : Str} :
    Guards d false (c :: s) ↔ c ≠ d ∧ Guards d false s := by
  rw [guards_false_cons, beq_false_of_ne hc]

theorem guards_of_not_mem {d : Char} {s : Str} (h : d ∉ s) (esc : Bool) : Guards d esc s := by
  induction s generalizing esc with
  | nil => simp
  | cons c s ih =>
    rw [List.mem_cons, not_or] at h
    cases esc with
    | true => exact ih h.2 false
    | false => exact ⟨Ne.symm h.1, ih h.2 _⟩

def Literal (s : Str) : Prop := '\\' ∉ s.dropLast

instance (s : Str) : Decidable (Literal s) := inferInstanceAs (Decidable ('\\' ∉ s.dropLast))

theorem literal_of_not_mem {s : Str} (h : '\\' ∉ s) : Literal s :=
  fun hm => h (List.mem_of_mem_dropLast hm)

theorem Literal.cons {c : Char} {s : Str} (h : Literal (c :: s)) (hs : s ≠ []) :
    c ≠ '\\' ∧ Literal s := by
  rw [Literal, List.dropLast_cons_of_ne_nil hs, List.mem_cons, not_or] at h
  exact ⟨Ne.symm h.1, h.2⟩

theorem Literal.of_cons {c : Char} {s : Str} (hc : c ≠ '\\') (hs : Literal s) :
    Literal (c :: s) := by
  cases s with
  | nil => simp [Literal]
  | cons c' s =>
    rw [Literal, List.dropLast_cons_of_ne_nil (by simp), List.mem_cons, not_or]
    exact ⟨Ne.symm hc, hs⟩

theorem Literal.not_mem {d : Char} {s : Str} (h : Literal s) (hg : Guards d false s) : d ∉ s := by
  induction s with
  | nil => simp
  | cons c s ih =>
    cases s with
    | nil => simpa [eq_comm] using hg.1
    | cons c' s =>
      obtain ⟨hc, hs⟩ := h.cons (by simp)
      rw [List.mem_cons, not_or]
      exact ⟨Ne.symm hg.1, ih hs ((guards_cons_of_ne hc).mp hg).2⟩

theorem after_of_not_mem {s : Str} (h : '\\' ∉ s) : after false s = false := by
  induction s with
  | nil => rfl
  | cons c s ih =>
    rw [List.mem_cons, not_or] at h
    rw [after_cons_of_ne (Ne.symm h.1), ih h.2]

theorem Literal.not_mem_of_closed {s : Str} (h : Literal s) (ha : after false s = false) :
    '\\' ∉ s := by
  induction s with
  | nil => simp
  | cons c s ih =>
    cases s with
    | nil =>
      have hc : c ≠ '\\' := beq_eq_false_iff_ne.mp ha
      exact fun hm => hc (List.mem_singleton.mp hm).symm
    | cons c' s =>
      obtain ⟨hc, hs⟩ := h.cons (by simp)
      rw [after_cons_of_ne hc] at ha
      rw [List.mem_cons, not_or]
      exact ⟨Ne.symm hc, ih hs ha⟩

theorem getLast?_of_open {s : Str} (h : after false s = true) : s.getLast? = some '\\' := by
  induction s using List.reverseRecOn with
  | nil => cases h
  | append_singleton s c _ =>
    rw [List.getLast?_concat]
    rw [after_append] at h
    cases hs : after false s with
    | true =>
      rw [hs] at h
      cases h
    | false =>
      rw [hs] at h
      rw [beq_iff_eq.mp h]

theorem exists_of_not_guards {d : Char} {esc : Bool} {s : Str} (h : ¬ Guards d esc s) :
    ∃ a b, s = a ++ d :: b ∧ Guards d esc a ∧ after esc a = false := by
  induction s generalizing esc with
  | nil => simp at h
  | cons c s ih =>
    cases esc with
    | true =>
      have hs : ¬ Guards d false s := h
      obtain ⟨a, b, rfl, ha, hc⟩ := ih hs
      exact ⟨c :: a, b, rfl, ha, hc⟩
    | false =>
      by_cases hcd : c = d
      · exact ⟨[], s, by rw [hcd]; rfl, trivial, rfl⟩
      · have hs : ¬ Guards d (c == '\\') s := fun hg => h ⟨hcd, hg⟩
        obtain ⟨a, b, rfl, ha, hc⟩ := ih hs
        exact ⟨c :: a, b, rfl, ⟨hcd, ha⟩, hc⟩

theorem after_asciiLower (esc : Bool) (s : Str) : after esc s.asciiLower = after esc s := by
  induction s generalizing esc with
  | nil => rfl
  | cons c s ih =>
    have hc : (c.toLower == '\\') = (c == '\\') := by
      rw [Bool.eq_iff_iff, beq_iff_eq, beq_iff_eq, Str.toLower_eq_iff (by decide)]
    cases esc with
    | true => exact ih false
    | false => exact (congrArg (after · _) hc).trans (ih _)

theorem Literal.asciiLower {s : Str} (h : Literal s) : Literal s.asciiLower := by
  rw [Literal, Str.asciiLower, ← List.map_dropLast]
  intro hm
  exact h ((Str.mem_asciiLower_iff (by decide)).mp hm)

theorem guards_asciiLower {d : Char} (hd : d.isAlpha = false) {esc : Bool} {s : Str} :
    Guards d esc s.asciiLower ↔ Guards d esc s := by
  induction s generalizing esc with
  | nil => rfl
  | cons c s ih =>
    have hc : (c.toLower == '\\') = (c == '\\') := by
      rw [Bool.eq_iff_iff, beq_iff_eq, beq_iff_eq, Str.toLower_eq_iff (by decide)]
    cases esc with
    | true => exact ih
    | false =>
      change c.toLower ≠ d ∧ Guards d (c.toLower == '\\') (Str.asciiLower s) ↔ _
      rw [hc, ih, Ne, Str.toLower_eq_iff hd]
      rfl

/-- The parts between unescaped delimiters: none hides one, and only the last
may end inside an escape. -/
structure Framed (d : Char) (ps : List Str) : Prop where
  nonempty : ps ≠ []
  guards : ∀ p ∈ ps, Guards d false p
  closed : ∀ p ∈ ps.dropLast, after false p = false

theorem framed_singleton {d : Char} {p : Str} : Framed d [p] ↔ Guards d false p := by
  constructor
  · intro h
    exact h.guards p (by simp)
  · intro h
    exact ⟨by simp, by simpa using h, by simp⟩

theorem framed_cons_cons {d : Char} {p q : Str} {ps : List Str} :
    Framed d (p :: q :: ps) ↔ Guards d false p ∧ after false p = false ∧ Framed d (q :: ps) := by
  constructor
  · intro h
    refine ⟨h.guards p (by simp), h.closed p (by simp), by simp, ?_, ?_⟩
    · intro r hr
      exact h.guards r (List.mem_cons_of_mem _ hr)
    · intro r hr
      exact h.closed r (by simp [hr])
  · rintro ⟨hg, hc, hps⟩
    refine ⟨by simp, ?_, ?_⟩
    · simpa [hg] using hps.guards
    · simpa [hc] using hps.closed

theorem after_join {d : Char} (hd : d ≠ '\\') {ps : List Str} (h : ps ≠ []) :
    after false (Str.join d ps) = after false (ps.getLast h) := by
  induction ps with
  | nil => exact absurd rfl h
  | cons p ps ih =>
    cases ps with
    | nil => simp
    | cons q ps =>
      rw [Str.join_cons_cons, after_append, after_cons_of_ne hd, ih (by simp),
        List.getLast_cons (List.cons_ne_nil q ps)]

theorem guards_join {d e : Char} (hd : d ≠ '\\') (hde : d ≠ e) {ps : List Str}
    (h : Framed d ps) : Guards e false (Str.join d ps) ↔ ∀ p ∈ ps, Guards e false p := by
  induction ps with
  | nil => exact absurd rfl h.nonempty
  | cons p ps ih =>
    cases ps with
    | nil => simp
    | cons q ps =>
      obtain ⟨-, hc, hps⟩ := framed_cons_cons.mp h
      rw [Str.join_cons_cons, guards_append, hc, guards_cons_of_ne hd, ih hps]
      simp [hde]

theorem framed_append {d : Char} {ps qs : List Str} (hp : ps ≠ []) (hq : qs ≠ []) :
    Framed d (ps ++ qs) ↔ Framed d ps ∧ after false (ps.getLast hp) = false ∧ Framed d qs := by
  induction ps with
  | nil => exact absurd rfl hp
  | cons p ps ih =>
    cases ps with
    | nil =>
      obtain ⟨q, qs, rfl⟩ := List.exists_cons_of_ne_nil hq
      simp [framed_cons_cons, framed_singleton]
    | cons p' ps =>
      have h := ih (by simp)
      simp only [List.cons_append] at h ⊢
      rw [framed_cons_cons, framed_cons_cons, h, List.getLast_cons (List.cons_ne_nil p' ps)]
      simp only [and_assoc]

theorem Framed.prepend_blank {d : Char} (hd : Str.isWhitespace d = false) {w : Str} (hw : w.Blank)
    {p : Str} {ps : List Str} (h : Framed d (p :: ps)) : Framed d ((w ++ p) :: ps) := by
  have hguards : Guards d false (w ++ p) ↔ Guards d false p := by
    rw [guards_append, after_of_not_mem fun hm => absurd (hw _ hm) (by decide)]
    exact and_iff_right (guards_of_not_mem (fun hm => by simp [hw d hm] at hd) false)
  have hafter : after false (w ++ p) = after false p := by
    rw [after_append, after_of_not_mem fun hm => absurd (hw _ hm) (by decide)]
  cases ps with
  | nil => rwa [framed_singleton, hguards, ← framed_singleton]
  | cons q ps => rwa [framed_cons_cons, hguards, hafter, ← framed_cons_cons]

theorem Framed.append_blank {d : Char} (hd : Str.isWhitespace d = false) {w : Str} (hw : w.Blank)
    {ps : List Str} (h : Framed d ps) :
    ∃ qs, Framed d qs ∧ Str.join d qs = Str.join d ps ++ w ∧
      List.Forall₂ (fun q p => Str.trim q = Str.trim p) qs ps := by
  induction ps with
  | nil => exact absurd rfl h.nonempty
  | cons p ps ih =>
    cases ps with
    | nil =>
      refine ⟨[p ++ w], framed_singleton.mpr ?_, by simp, .cons (Str.trim_append_blank hw p) .nil⟩
      exact guards_append.mpr ⟨framed_singleton.mp h,
        guards_of_not_mem (fun hm => by simp [hw d hm] at hd) _⟩
    | cons p' ps =>
      obtain ⟨hg, hc, hps⟩ := framed_cons_cons.mp h
      obtain ⟨qs, hqs, hjoin, hf⟩ := ih hps
      cases hf with
      | cons hq hf =>
        refine ⟨p :: _ :: _, framed_cons_cons.mpr ⟨hg, hc, hqs⟩, ?_, .cons rfl (.cons hq hf)⟩
        rw [Str.join_cons_cons, hjoin, Str.join_cons_cons]
        simp

theorem Framed.pad {d : Char} (hd : Str.isWhitespace d = false) {ps : List Str} (h : Framed d ps)
    {w w' : Str} (hw : w.Blank) (hw' : w'.Blank) :
    ∃ qs, Framed d qs ∧ Str.join d qs = w ++ (Str.join d ps ++ w') ∧
      List.Forall₂ (fun q p => Str.trim q = Str.trim p) qs ps := by
  obtain ⟨qs, hqs, hjoin, hf⟩ := h.append_blank hd hw'
  cases hf with
  | nil => exact absurd rfl h.nonempty
  | @cons q p qs ps hq hf =>
    refine ⟨(w ++ q) :: qs, hqs.prepend_blank hd hw, ?_, .cons ?_ hf⟩
    · rw [← hjoin]
      cases qs <;> simp [Str.join_cons_cons]
    · rw [Str.trim_blank_append hw, hq]

theorem exists_framed (d : Char) (s : Str) : ∃ ps, Framed d ps ∧ Str.join d ps = s := by
  induction hn : s.length using Nat.strong_induction_on generalizing s with
  | _ n ih =>
    by_cases hg : Guards d false s
    · exact ⟨[s], framed_singleton.mpr hg, by simp⟩
    · obtain ⟨a, b, rfl, ha, hc⟩ := exists_of_not_guards hg
      have hlt : b.length < n := by
        rw [← hn, List.length_append, List.length_cons]
        omega
      obtain ⟨ps, hps, rfl⟩ := ih b.length hlt b rfl
      cases ps with
      | nil => exact absurd rfl hps.nonempty
      | cons q ps => exact ⟨a :: q :: ps, framed_cons_cons.mpr ⟨ha, hc, hps⟩, by simp [Str.join]⟩

end IronDirectory.Base.Escape
