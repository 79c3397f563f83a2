import IronDirectory.Defs.Base.TextLaws

namespace IronDirectory.Base

structure CaseTables where
  toLower : Char → Str
  cased : Char → Bool
  caseIgnorable : Char → Bool
  toLower_sigma : toLower 'Σ' = ['σ']
  toLower_blank : toLower ' ' = [' ']
  toLower_ascii : ∀ c, toLower c.toLower = toLower c
  cased_ascii : ∀ c, cased c.toLower = cased c
  caseIgnorable_ascii : ∀ c, caseIgnorable c.toLower = caseIgnorable c

namespace CaseTables

variable (tables : CaseTables)

def caseIgnorableThenCased (s : Str) : Bool :=
  ((s.dropWhile tables.caseIgnorable).head?.map tables.cased).getD false

/-- Whether a sigma ends a word, given the text before it, last character
first, and the text after it. -/
def isWordFinal (before after : Str) : Bool :=
  tables.caseIgnorableThenCased before && !tables.caseIgnorableThenCased after

def lowerAt (before : Str) (c : Char) (after : Str) : Str :=
  if c = 'Σ' then [if tables.isWordFinal before after then 'ς' else 'σ'] else tables.toLower c

def lowerFrom (before : Str) : Str → Str
  | [] => []
  | c :: s => tables.lowerAt before c s ++ lowerFrom (c :: before) s

def toLowercase (s : Str) : Str := tables.lowerFrom [] s

def NoFinalSigma (s : Str) : Prop :=
  ∀ x y, s = x ++ 'Σ' :: y → tables.isWordFinal x.reverse y = false

@[simp] theorem length_lowerAt (before : Str) (c : Char) (after : Str) :
    (tables.lowerAt before c after).length = (tables.toLower c).length := by
  rw [lowerAt]
  split
  · next h => rw [h, tables.toLower_sigma]; rfl
  · rfl

theorem lowerAt_eq_iff (before : Str) (c : Char) (after : Str) :
    tables.lowerAt before c after = tables.toLower c ↔
      (c = 'Σ' → tables.isWordFinal before after = false) := by
  by_cases h : c = 'Σ'
  · subst h
    rw [lowerAt, if_pos rfl, tables.toLower_sigma]
    cases tables.isWordFinal before after <;> decide
  · simp [lowerAt, h]

@[simp] theorem length_lowerFrom (before s : Str) :
    (tables.lowerFrom before s).length = (s.flatMap tables.toLower).length := by
  induction s generalizing before with
  | nil => rfl
  | cons c s ih =>
    rw [lowerFrom, List.flatMap_cons, List.length_append, List.length_append, ih, length_lowerAt]

theorem lowerFrom_eq_flatMap_iff (before s : Str) :
    tables.lowerFrom before s = s.flatMap tables.toLower ↔
      ∀ x y, s = x ++ 'Σ' :: y → tables.isWordFinal (x.reverse ++ before) y = false := by
  induction s generalizing before with
  | nil => simp [lowerFrom]
  | cons c s ih =>
    have hsplit : tables.lowerFrom before (c :: s) = (c :: s).flatMap tables.toLower ↔
        tables.lowerAt before c s = tables.toLower c ∧
          tables.lowerFrom (c :: before) s = s.flatMap tables.toLower := by
      rw [lowerFrom, List.flatMap_cons]
      constructor
      · exact fun h => List.append_inj h (tables.length_lowerAt before c s)
      · rintro ⟨hc, hs⟩
        rw [hc, hs]
    rw [hsplit, lowerAt_eq_iff, ih]
    constructor
    · rintro ⟨hhead, htail⟩ x y h
      cases x with
      | nil =>
        obtain ⟨rfl, rfl⟩ := List.cons.inj h
        exact hhead rfl
      | cons d x =>
        obtain ⟨rfl, rfl⟩ := List.cons.inj h
        simpa using htail x y rfl
    · intro h
      refine ⟨?_, ?_⟩
      · rintro rfl
        exact h [] s rfl
      · rintro x y rfl
        simpa using h (c :: x) y rfl

theorem toLowercase_eq_flatMap_iff (s : Str) :
    tables.toLowercase s = s.flatMap tables.toLower ↔ tables.NoFinalSigma s := by
  rw [toLowercase, lowerFrom_eq_flatMap_iff]
  simp only [List.append_nil, NoFinalSigma]

@[simp] theorem caseIgnorableThenCased_asciiLower (s : Str) :
    tables.caseIgnorableThenCased s.asciiLower = tables.caseIgnorableThenCased s := by
  have hignorable : tables.caseIgnorable ∘ Char.toLower = tables.caseIgnorable :=
    funext tables.caseIgnorable_ascii
  have hcased : tables.cased ∘ Char.toLower = tables.cased := funext tables.cased_ascii
  rw [caseIgnorableThenCased, Str.asciiLower, List.dropWhile_map, hignorable, List.head?_map,
    Option.map_map, hcased, ← caseIgnorableThenCased]

theorem lowerFrom_asciiLower (before s : Str) :
    tables.lowerFrom before.asciiLower s.asciiLower = tables.lowerFrom before s := by
  induction s generalizing before with
  | nil => rfl
  | cons c s ih =>
    have hat : tables.lowerAt before.asciiLower c.toLower (Str.asciiLower s) =
        tables.lowerAt before c s := by
      simp [lowerAt, isWordFinal, Str.toLower_eq_iff (d := 'Σ') (by decide), tables.toLower_ascii]
    have htail := ih (c :: before)
    exact congrArg₂ (· ++ ·) hat htail

@[simp] theorem toLowercase_asciiLower (s : Str) :
    tables.toLowercase s.asciiLower = tables.toLowercase s :=
  tables.lowerFrom_asciiLower [] s

end CaseTables

end IronDirectory.Base
