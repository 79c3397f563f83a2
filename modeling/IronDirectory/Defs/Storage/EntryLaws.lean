import IronDirectory.Defs.Storage.Entry

namespace IronDirectory.Storage.Entry

open Base

theorem valuesOf_congr {a b : Str} (h : a.asciiLower = b.asciiLower) (e : Entry) :
    e.valuesOf a = e.valuesOf b := by
  rw [valuesOf, valuesOf, get_congr h]

variable (e : Entry) (attr : Str) (values : List Str)

theorem get_set (b : Str) : (e.set attr values).get b =
    if b.asciiLower = attr.asciiLower then some values else e.get b := by
  rw [get, set, OrderedMap.find?_insert]
  rfl

theorem valuesOf_set (b : Str) : (e.set attr values).valuesOf b =
    if b.asciiLower = attr.asciiLower then values else e.valuesOf b := by
  rw [valuesOf, get_set]
  split
  · rfl
  · rfl

def addAll (old values : List Str) : List Str :=
  values.foldl (fun vs v => if v ∈ vs then vs else vs ++ [v]) old

theorem mem_addAll {old values : List Str} {v : Str} :
    v ∈ addAll old values ↔ v ∈ old ∨ v ∈ values := by
  induction values generalizing old with
  | nil => simp [addAll]
  | cons w values ih =>
    rw [addAll, List.foldl_cons]
    split
    · next h =>
      rw [← addAll, ih, List.mem_cons]
      constructor
      · exact fun h => h.imp id .inr
      · rintro (h | rfl | h)
        · exact .inl h
        · exact .inl ‹_›
        · exact .inr h
    · rw [← addAll, ih, List.mem_append, List.mem_singleton, List.mem_cons, or_assoc]

theorem get_addValues (b : Str) : (e.addValues attr values).get b =
    if b.asciiLower = attr.asciiLower then some (addAll (e.valuesOf attr) values)
    else e.get b := by
  rw [get, addValues, OrderedMap.find?_insert]
  rfl

theorem mem_valuesOf_addValues {b v : Str} : v ∈ (e.addValues attr values).valuesOf b ↔
    v ∈ e.valuesOf b ∨ b.asciiLower = attr.asciiLower ∧ v ∈ values := by
  rw [valuesOf, get_addValues]
  split
  · next h => simp [mem_addAll, h, valuesOf_congr h e]
  · next h => simp [h, valuesOf]

theorem mem_valuesOf_erase {b v : Str} : v ∈ valuesOf ⟨e.attrs.erase attr.asciiLower⟩ b ↔
    v ∈ e.valuesOf b ∧ b.asciiLower ≠ attr.asciiLower := by
  rw [valuesOf, get, OrderedMap.find?_erase]
  split
  · next h => simp [h]
  · next h => simp [h, valuesOf, get]

theorem mem_valuesOf_deleteValues {b v : Str} (hne : values ≠ []) :
    v ∈ (e.deleteValues attr values).valuesOf b ↔
      v ∈ e.valuesOf b ∧ ¬ (b.asciiLower = attr.asciiLower ∧ v ∈ values) := by
  rw [deleteValues, if_neg (by simpa using hne)]
  split
  · next hnone =>
    refine (and_iff_left_of_imp ?_).symm
    rintro hv ⟨hb, -⟩
    rw [valuesOf_congr hb, valuesOf, get, hnone] at hv
    cases hv
  · next old hold =>
    have hmem : b.asciiLower = attr.asciiLower → (v ∈ e.valuesOf b ↔ v ∈ old) := by
      intro hb
      rw [valuesOf_congr hb, valuesOf, get, hold]
      rfl
    simp only
    split
    · next hempty =>
      rw [mem_valuesOf_erase]
      refine and_congr_right fun hv => ?_
      refine ⟨fun hb hboth => hb hboth.1, fun hkept hb => hkept ⟨hb, ?_⟩⟩
      rw [List.isEmpty_iff, List.filter_eq_nil_iff] at hempty
      simpa using hempty v ((hmem hb).mp hv)
    · rw [valuesOf, get, OrderedMap.find?_insert]
      split
      · next hb => simp [hmem hb, hb]
      · next hb => simp [hb, valuesOf, get]

theorem valuesOf_addValues (b : Str) : (e.addValues attr values).valuesOf b =
    if b.asciiLower = attr.asciiLower then addAll (e.valuesOf b) values else e.valuesOf b := by
  rw [valuesOf, get_addValues]
  split
  · next h => rw [valuesOf_congr h, Option.getD_some]
  · rfl

theorem valuesOf_deleteValues (b : Str) : (e.deleteValues attr values).valuesOf b =
    if b.asciiLower = attr.asciiLower then
      if values = [] then [] else (e.valuesOf b).filter fun v => !values.contains v
    else e.valuesOf b := by
  have herase : valuesOf ⟨e.attrs.erase attr.asciiLower⟩ b =
      if b.asciiLower = attr.asciiLower then [] else e.valuesOf b := by
    rw [valuesOf, get, OrderedMap.find?_erase]
    split <;> rfl
  by_cases hnil : values = []
  · rw [deleteValues, if_pos (by simp [hnil]), herase, if_pos hnil]
  · rw [deleteValues, if_neg (by simpa using hnil), if_neg hnil]
    cases hold : e.attrs.find? attr.asciiLower with
    | none =>
      by_cases hb : b.asciiLower = attr.asciiLower
      · have hvalues : e.valuesOf b = [] := by
          rw [valuesOf, get, hb, hold]
          rfl
        rw [if_pos hb, hvalues]
        rfl
      · rw [if_neg hb]
    | some old =>
      have hvalues : b.asciiLower = attr.asciiLower → e.valuesOf b = old := by
        intro hb
        rw [valuesOf, get, hb, hold]
        rfl
      simp only
      split
      · next hempty =>
        rw [herase]
        split
        · next hb => rw [hvalues hb, List.isEmpty_iff.mp hempty]
        · rfl
      · rw [valuesOf, get, OrderedMap.find?_insert]
        split
        · next hb => rw [hvalues hb, Option.getD_some]
        · rfl

theorem mem_of_mem_valuesOf_deleteValues {b v : Str}
    (h : v ∈ (e.deleteValues attr values).valuesOf b) : v ∈ e.valuesOf b := by
  by_cases hne : values = []
  · rw [hne, deleteValues, if_pos List.isEmpty_nil] at h
    exact ((mem_valuesOf_erase _ _).mp h).1
  · exact ((mem_valuesOf_deleteValues _ _ _ hne).mp h).1

def All (P : Str → Prop) (attr : Str) (e : Entry) : Prop := ∀ v ∈ e.valuesOf attr, P v

section All

variable {P : Str → Prop} {attr b : Str} {values : List Str} {e : Entry}

theorem all_new (P : Str → Prop) (attr : Str) : All P attr .new := by
  simp [All, valuesOf, get, new, OrderedMap.find?, OrderedMap.empty]

theorem All.set (h : All P attr e)
    (hv : attr.asciiLower = b.asciiLower → ∀ v ∈ values, P v) : All P attr (e.set b values) := by
  intro v hmem
  rw [valuesOf_set] at hmem
  split at hmem
  · exact hv ‹_› v hmem
  · exact h v hmem

theorem All.addValues (h : All P attr e)
    (hv : attr.asciiLower = b.asciiLower → ∀ v ∈ values, P v) :
    All P attr (e.addValues b values) := by
  intro v hmem
  obtain hmem | ⟨hb, hmem⟩ := (mem_valuesOf_addValues _ _ _).mp hmem
  · exact h v hmem
  · exact hv hb v hmem

theorem All.deleteValues (h : All P attr e) : All P attr (e.deleteValues b values) :=
  fun v hmem => h v (mem_of_mem_valuesOf_deleteValues _ _ _ hmem)

end All

def Folded (e : Entry) : Prop := ∀ name ∈ e.attrNames, name.asciiLower = name

section Folded

variable {e : Entry}

theorem mem_attrNames {name : Str} : name ∈ e.attrNames ↔ (e.attrs.find? name).isSome = true := by
  simp [attrNames, OrderedMap.mem_entries_iff, Option.isSome_iff_exists]

theorem folded_insert {attrs : OrderedMap Str (List Str)} (h : Folded ⟨attrs⟩) (attr : Str)
    (values : List Str) : Folded ⟨attrs.insert attr.asciiLower values⟩ := by
  intro name hname
  rw [mem_attrNames, OrderedMap.find?_insert] at hname
  split at hname
  · next heq => rw [heq, Str.asciiLower_asciiLower]
  · exact h name (mem_attrNames.mpr hname)

theorem folded_new : Folded .new := fun _ h => nomatch h

theorem Folded.set (h : Folded e) (attr : Str) (values : List Str) : Folded (e.set attr values) :=
  folded_insert h attr values

end Folded

end IronDirectory.Storage.Entry
