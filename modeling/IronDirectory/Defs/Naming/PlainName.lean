import IronDirectory.Defs.Naming.DnText
import IronDirectory.Defs.Naming.KeyText

namespace IronDirectory.Naming

open Base Escape

def metacharacters : List Char := ['\\', ',', '+', '=', '<', '>', '#', ';', '"', '/']

theorem isAlpha_of_metacharacter {c : Char} (h : c ∈ metacharacters) : c.isAlpha = false := by
  simp only [metacharacters, List.mem_cons, List.not_mem_nil, or_false] at h
  rcases h with rfl | rfl | rfl | rfl | rfl | rfl | rfl | rfl | rfl | rfl <;> decide

theorem metacharacter_of_isSpecial {c : Char} (h : isSpecial c = true) : c ∈ metacharacters := by
  simp only [isSpecial, Bool.or_eq_true, beq_iff_eq] at h
  simp only [metacharacters, List.mem_cons, List.not_mem_nil, or_false]
  tauto

@[mk_iff]
structure Ava.Plain (a : Ava) : Prop where
  attr : ∀ c ∈ metacharacters, c ∉ a.attr
  value : ∀ c ∈ metacharacters, c ∉ a.value

def Dn.Plain (d : Dn) : Prop := ∀ r ∈ d.rdns, ∀ a ∈ r.avas, a.Plain

instance Ava.Plain.decidable (a : Ava) : Decidable a.Plain :=
  haveI : ∀ s : Str, Decidable (∀ c ∈ metacharacters, c ∉ s) := fun _ => List.decidableBAll _ _
  decidable_of_iff' _ (Ava.plain_iff a)

instance Dn.Plain.decidable (d : Dn) : Decidable d.Plain :=
  inferInstanceAs (Decidable (∀ r ∈ d.rdns, ∀ a ∈ r.avas, a.Plain))

theorem escapeFrom_of_not_special {v : Str} {first : Bool} (h : ∀ c ∈ v, isSpecial c = false)
    (hhead : first = true → ∀ c ∈ v.head?, c ≠ ' ') (hlast : ∀ c ∈ v.getLast?, c ≠ ' ') :
    escapeFrom first v = v := by
  induction v generalizing first with
  | nil => rfl
  | cons c cs ih =>
    rw [List.forall_mem_cons] at h
    have hedge : (c == ' ' && (first || cs.isEmpty)) = false := by
      cases first with
      | true => simpa using hhead rfl c rfl
      | false =>
        cases cs with
        | nil => simpa using hlast c rfl
        | cons c' cs => simp
    have hrest : escapeFrom false cs = cs := by
      refine ih h.2 (fun hf => by cases hf) fun c' hc' => ?_
      cases cs with
      | nil => cases hc'
      | cons b bs => exact hlast c' (by rwa [List.getLast?_cons_cons])
    rw [escapeFrom, escapeChar, h.1, hedge, Bool.or_false, if_neg (by decide), hrest]
    rfl

variable {a : Ava} {d : Dn}

theorem Ava.Plain.normValue (h : a.Plain) {c : Char} (hc : c ∈ metacharacters) :
    c ∉ a.normValue := by
  intro hmem
  rw [Ava.normValue, Str.mem_asciiLower_iff (isAlpha_of_metacharacter hc)] at hmem
  exact h.value c hc (Str.mem_of_mem_trim hmem)

theorem Ava.Plain.display_folded (h : a.Plain) : a.folded.display = a.keyText := by
  have hblank : ∀ c, Str.isWhitespace c = false → c ≠ ' ' := by
    rintro c hc rfl
    exact absurd hc (by decide)
  have hspecial : ∀ c ∈ a.normValue, isSpecial c = false := by
    intro c hc
    by_contra hs
    exact h.normValue (metacharacter_of_isSpecial (by simpa using hs)) hc
  rw [Ava.display, Ava.keyText, Ava.folded, escapeValue, escapeFrom_of_not_special hspecial]
  · exact fun _ c hc => hblank c (a.trimmed_normValue.head c hc)
  · exact fun c hc => hblank c (a.trimmed_normValue.last c hc)

theorem Ava.Plain.legible (h : a.Plain) : LegibleAva a.norm where
  attr_closed := after_of_not_mem (h.attr _ (by simp [metacharacters]))
  attr_slash := h.attr _ (by simp [metacharacters])
  value_plain := by
    intro c hc
    refine h.normValue ?_
    simp only [List.mem_cons, List.not_mem_nil, or_false] at hc
    rcases hc with rfl | rfl | rfl <;> simp [metacharacters]
  value_literal := literal_of_not_mem (h.normValue (by simp [metacharacters]))

theorem Dn.Plain.legible (h : d.Plain) : d.Legible := by
  have havas : ∀ a ∈ d.norm.flatten, ∃ b : Ava, b.Plain ∧ b.norm = a := by
    intro a ha
    obtain ⟨l, hl, ha⟩ := List.mem_flatten.mp ha
    obtain ⟨r, hr, rfl⟩ := List.mem_map.mp hl
    obtain ⟨b, hb, rfl⟩ := List.mem_map.mp ha
    exact ⟨b, h r hr b hb, rfl⟩
  constructor
  · intro a ha
    obtain ⟨b, hb, rfl⟩ := havas a ha
    exact hb.legible
  · intro a ha
    obtain ⟨b, hb, rfl⟩ := havas a (List.mem_of_mem_dropLast ha)
    exact hb.normValue (by simp [metacharacters])

theorem Dn.Plain.display_folded (h : d.Plain) : d.folded.display = d.keyForm := by
  simp only [Dn.display, Dn.folded, Dn.keyForm, List.map_map]
  congr 1
  refine List.map_congr_left fun r hr => ?_
  simp only [Function.comp_apply, Rdn.display_eq, Rdn.normalizedString_eq, List.map_map]
  congr 1
  exact List.map_congr_left fun a ha => (h r hr a ha).display_folded

theorem Dn.Plain.display_inj {e : Dn} (hd : d.Plain) (he : e.Plain) (hdw : d.Wf) (hew : e.Wf) :
    d.folded.display = e.folded.display ↔ d.path = e.path := by
  rw [hd.display_folded, he.display_folded]
  constructor
  · intro h
    have hparse := hd.legible.parse_keyForm hdw
    rw [h, he.legible.parse_keyForm hew] at hparse
    have heq : e.folded = d.folded := by simpa using hparse
    exact Key.path_congr (d.folded_same.symm.trans (heq ▸ e.folded_same))
  · intro h
    rw [← hd.legible.commaForm_path, ← he.legible.commaForm_path, h]

end IronDirectory.Naming
