import IronDirectory.Defs.Base.Pieces
import IronDirectory.Defs.Base.TextLaws
import IronDirectory.Defs.Ldap.Filter

namespace IronDirectory.Ldap.Filter

open Base Base.Pieces Storage

theorem afterFirst_eq_some {a s rest : Str} (h : afterFirst a s = some rest) :
    FirstRest a s rest := by
  induction s with
  | nil =>
    rw [afterFirst, Str.stripPrefix_eq_some_iff] at h
    rw [h]
    exact .of_isPrefix a rest
  | cons c s ih =>
    rw [afterFirst] at h
    split at h
    · next r hstrip =>
      cases h
      rw [Str.stripPrefix_eq_some_iff.mp hstrip]
      exact .of_isPrefix a rest
    · next hstrip => exact (ih h).cons (Str.stripPrefix_eq_none_iff.mp hstrip)

theorem afterFirst_eq_none {a s : Str} (h : afterFirst a s = none) (x y : Str) :
    s ≠ x ++ (a ++ y) := by
  induction s generalizing x with
  | nil =>
    rw [afterFirst, Str.stripPrefix_eq_none_iff] at h
    intro hxy
    obtain ⟨rfl, hay⟩ := List.append_eq_nil_iff.mp hxy.symm
    exact h ⟨y, hay⟩
  | cons c s ih =>
    rw [afterFirst] at h
    split at h
    · nomatch h
    · next hstrip =>
      intro hxy
      obtain ⟨x', -, hs⟩ := eq_cons_of_not_isPrefix (Str.stripPrefix_eq_none_iff.mp hstrip) hxy
      exact ih h x' hs

theorem foldlM_afterFirst {last s : Str} {any : List Str} :
    (∃ rest, any.foldlM (fun rest a => afterFirst a rest) s = some rest ∧ last <:+ rest) ↔
      Arranged last any s := by
  induction any generalizing s with
  | nil => simp [Arranged]
  | cons a any ih =>
    rw [List.foldlM_cons]
    cases h : afterFirst a s with
    | none =>
      constructor
      · rintro ⟨_, hnone, -⟩
        nomatch hnone
      · rintro ⟨x, y, hs, -⟩
        exact absurd hs (afterFirst_eq_none h x y)
    | some rest => exact ih.trans (afterFirst_eq_some h).arranged_cons.symm

theorem substringMatch_without_initial (value : Str) (any : List Str) (final : Option Str) :
    substringMatch value ⟨none, any, final⟩ = true ↔ Arranged (final.getD []) any value := by
  rw [← foldlM_afterFirst]
  cases h : any.foldlM (fun rest a => afterFirst a rest) value with
  | none => simp [substringMatch, h]
  | some rest => cases final <;> simp [substringMatch, h]

theorem substringMatch_with_initial (value i : Str) (any : List Str) (final : Option Str) :
    substringMatch value ⟨some i, any, final⟩ = true ↔
      ∃ rest, value = i ++ rest ∧ substringMatch rest ⟨none, any, final⟩ = true := by
  cases h : Str.stripPrefix value i with
  | none =>
    have hpre := Str.stripPrefix_eq_none_iff.mp h
    constructor
    · intro hmatch
      simp [substringMatch, h] at hmatch
    · rintro ⟨rest, hvalue, -⟩
      exact absurd ⟨rest, hvalue.symm⟩ hpre
  | some rest =>
    have hvalue := Str.stripPrefix_eq_some_iff.mp h
    have hmatch : substringMatch value ⟨some i, any, final⟩ =
        substringMatch rest ⟨none, any, final⟩ := by
      simp [substringMatch, h]
    rw [hmatch]
    simp [hvalue]

theorem substringMatch_iff_arranged (value : Str) (c : Components) :
    substringMatch value c = true ↔
      ∃ rest, value = c.initial.getD [] ++ rest ∧ Arranged (c.final.getD []) c.any rest := by
  obtain ⟨initial, any, final⟩ := c
  cases initial with
  | none => simp [substringMatch_without_initial]
  | some i => simp only [substringMatch_with_initial, substringMatch_without_initial,
      Option.getD_some]

/-- The components are found exactly when the value is made of them, in order
and without overlap, with anything between. -/
theorem substringMatch_iff (value : Str) (initial : Option Str) (any : List Str)
    (final : Option Str) :
    substringMatch value ⟨initial, any, final⟩ = true ↔
      ∃ x₀ xs, xs.length = any.length ∧
        value = initial.getD [] ++ x₀ ++ (List.zipWith (· ++ ·) any xs).flatten ++
          final.getD [] := by
  rw [substringMatch_iff_arranged]
  constructor
  · rintro ⟨rest, rfl, harr⟩
    obtain ⟨x₀, xs, hlen, rfl⟩ := arranged_iff.mp harr
    exact ⟨x₀, xs, hlen, by simp⟩
  · rintro ⟨x₀, xs, hlen, rfl⟩
    exact ⟨_, by simp, arranged_iff.mpr ⟨x₀, xs, hlen, rfl⟩⟩

end IronDirectory.Ldap.Filter
