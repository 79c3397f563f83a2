import IronDirectory.Defs.Base.Casing
import IronDirectory.Defs.Base.Utf8Laws
import IronDirectory.Defs.Ldap.SubstringLaws
import IronDirectory.Defs.Storage.EntryLaws

/-! Folding of attribute values and of substring components.  A value is
lowercased as a whole, a component character by character; the two agree on a
value cut into components unless a sigma ends a word. -/

namespace IronDirectory.Ldap

open Base Base.Pieces Storage

def Unicode.ofTables (tables : CaseTables) : Unicode := ⟨tables.toLowercase, tables.toLower⟩

namespace Filter

def collapseFrom : Bool → Str → Str
  | _, [] => []
  | inSpace, c :: s =>
    if Str.isWhitespace c then
      if inSpace then collapseFrom true s else ' ' :: collapseFrom true s
    else c :: collapseFrom false s

theorem foldComponentFrom_eq (tables : CaseTables) (inSpace : Bool) (s : Str) :
    foldComponentFrom (.ofTables tables) inSpace s =
      (collapseFrom inSpace s).flatMap tables.toLower := by
  induction s generalizing inSpace with
  | nil => rfl
  | cons c s ih =>
    simp only [foldComponentFrom, collapseFrom]
    cases Str.isWhitespace c with
    | false => exact congrArg (tables.toLower c ++ ·) (ih false)
    | true => cases inSpace <;> simp [ih, tables.toLower_blank]

theorem collapseFrom_of_head {s : Str} (h : ∀ c ∈ s.head?, Str.isWhitespace c = false)
    (inSpace : Bool) : collapseFrom inSpace s = collapseFrom false s := by
  cases s with
  | nil => simp [collapseFrom]
  | cons c s => simp [collapseFrom, h c rfl]

theorem collapseFrom_append {t : Str} (h : ∀ c ∈ t.head?, Str.isWhitespace c = false)
    (inSpace : Bool) (s : Str) :
    collapseFrom inSpace (s ++ t) = collapseFrom inSpace s ++ collapseFrom false t := by
  induction s generalizing inSpace with
  | nil => simp [collapseFrom, collapseFrom_of_head h inSpace]
  | cons c s ih =>
    simp only [List.cons_append, collapseFrom]
    cases Str.isWhitespace c with
    | false => simp [ih]
    | true => cases inSpace <;> simp [ih]

section Words

variable {c d : Char} {s : Str}

theorem splitWhitespace_blank (hc : Str.isWhitespace c = true) (s : Str) :
    splitWhitespace (c :: s) = splitWhitespace s := by
  simp [splitWhitespace, List.splitOnP_cons_eq_if_modifyHead, hc]

theorem splitWhitespace_single (hc : Str.isWhitespace c = false) :
    splitWhitespace [c] = [[c]] := by
  simp [splitWhitespace, List.splitOnP_cons_eq_if_modifyHead, hc]

theorem splitWhitespace_word_end (hc : Str.isWhitespace c = false)
    (hd : Str.isWhitespace d = true) (s : Str) :
    splitWhitespace (c :: d :: s) = [c] :: splitWhitespace s := by
  simp [splitWhitespace, List.splitOnP_cons_eq_if_modifyHead, hc, hd]

theorem splitWhitespace_word (hc : Str.isWhitespace c = false)
    (hd : Str.isWhitespace d = false) (s : Str) :
    ∃ w ws, splitWhitespace (d :: s) = w :: ws ∧ splitWhitespace (c :: d :: s) = (c :: w) :: ws := by
  obtain ⟨w, ws, hsplit⟩ := List.exists_cons_of_ne_nil (List.splitOnP_ne_nil Str.isWhitespace s)
  refine ⟨d :: w, ws.filter fun w => !w.isEmpty, ?_, ?_⟩
  · simp [splitWhitespace, List.splitOnP_cons_eq_if_modifyHead, hd, hsplit]
  · simp [splitWhitespace, List.splitOnP_cons_eq_if_modifyHead, hc, hd, hsplit]

theorem last_of_cons (h : ∀ x ∈ (c :: s).getLast?, Str.isWhitespace x = false) :
    ∀ x ∈ s.getLast?, Str.isWhitespace x = false := by
  cases s with
  | nil => nofun
  | cons d s => simpa using h

theorem splitWhitespace_ne_nil (h : ∀ x ∈ (c :: s).getLast?, Str.isWhitespace x = false) :
    splitWhitespace (c :: s) ≠ [] := by
  induction s generalizing c with
  | nil => simp [splitWhitespace_single (h c rfl)]
  | cons d s ih =>
    have htail := ih (last_of_cons h)
    cases hc : Str.isWhitespace c with
    | true => rwa [splitWhitespace_blank hc]
    | false =>
      cases hd : Str.isWhitespace d with
      | true => simp [splitWhitespace_word_end hc hd]
      | false =>
        obtain ⟨w, ws, -, hsplit⟩ := splitWhitespace_word hc hd s
        simp [hsplit]

-- By induction on the text; a blank is written where the next word begins, so
-- the text must not end in white space.
theorem collapseFrom_eq_join (h : ∀ x ∈ s.getLast?, Str.isWhitespace x = false) :
    collapseFrom true s = Str.join ' ' (splitWhitespace s) := by
  induction s with
  | nil => rfl
  | cons c s ih =>
    have htail := ih (last_of_cons h)
    cases hc : Str.isWhitespace c with
    | true => simpa [collapseFrom, hc, splitWhitespace_blank hc] using htail
    | false =>
      cases s with
      | nil => simp [collapseFrom, hc, splitWhitespace_single hc, Str.join]
      | cons d s =>
        cases hd : Str.isWhitespace d with
        | true =>
          have hne := splitWhitespace_ne_nil (last_of_cons h)
          rw [splitWhitespace_blank hd] at hne htail
          have hjoin : Str.join ' ' ([c] :: splitWhitespace s) =
              Str.join ' ' [[c]] ++ ' ' :: Str.join ' ' (splitWhitespace s) :=
            Str.join_append (List.cons_ne_nil [c] []) hne
          rw [splitWhitespace_word_end hc hd, hjoin, ← htail]
          simp [collapseFrom, hc, hd]
        | false =>
          obtain ⟨w, ws, hw, hcw⟩ := splitWhitespace_word hc hd s
          rw [hw] at htail
          rw [hcw, Str.join_cons_head, ← htail]
          simp [collapseFrom, hc, hd]

theorem foldComponent_of_trimmed (tables : CaseTables) (h : Str.Trimmed s) :
    foldComponent (.ofTables tables) s =
      (Str.join ' ' (splitWhitespace s)).flatMap tables.toLower := by
  rw [foldComponent, foldComponentFrom_eq, ← collapseFrom_of_head h.head true,
    collapseFrom_eq_join h.last]

end Words

namespace Components

def pieces (c : Components) : List Str := c.initial.toList ++ c.any ++ c.final.toList

def map (f : Str → Str) (c : Components) : Components :=
  ⟨c.initial.map f, c.any.map f, c.final.map f⟩

def choices (c : Components) : List SubstringChoice :=
  c.initial.toList.map (fun s => .initial s.toUtf8) ++ c.any.map (fun s => .any s.toUtf8) ++
    c.final.toList.map (fun s => .final s.toUtf8)

/-- The value cut into these components, with no white space beside a cut. -/
structure Cuts (c : Components) (v : Str) : Prop where
  whole : c.pieces.flatten = v
  clean : ∀ ps qs, c.pieces = ps ++ qs → ps ≠ [] → qs ≠ [] →
    (∀ x ∈ ps.flatten.getLast?, Str.isWhitespace x = false) ∧
      ∀ x ∈ qs.flatten.head?, Str.isWhitespace x = false

theorem pieces_map (f : Str → Str) (c : Components) : (c.map f).pieces = c.pieces.map f := by
  obtain ⟨initial, any, final⟩ := c
  cases initial <;> cases final <;> simp [pieces, map]

theorem flatten_pieces (c : Components) :
    c.pieces.flatten = c.initial.getD [] ++ (c.any.flatten ++ c.final.getD []) := by
  obtain ⟨initial, any, final⟩ := c
  cases initial <;> cases final <;> simp [pieces]

end Components

theorem componentsFrom_any (u : Unicode) (n i : Nat) (acc : Components) (any : List Str)
    (rest : List SubstringChoice) :
    componentsFrom u n i acc (any.map (fun s => .any s.toUtf8) ++ rest) =
      componentsFrom u n (i + any.length)
        { acc with any := acc.any ++ any.map (foldComponent u) } rest := by
  induction any generalizing i acc with
  | nil => simp
  | cons a any ih =>
    simp only [List.map_cons, List.cons_append, componentsFrom, ih, Utf8.fromUtf8Lossy_toUtf8]
    simp [Nat.add_assoc, Nat.add_comm 1]

-- With the initial component read, the others follow in any number.
theorem componentsFrom_tail (u : Unicode) {n i : Nat} (initial : Option Str) (any : List Str)
    (final : Option Str) (hn : n = i + any.length + final.toList.length) :
    componentsFrom u n i ⟨initial, [], none⟩
        (any.map (fun s => .any s.toUtf8) ++ final.toList.map (fun s => .final s.toUtf8)) =
      some ⟨initial, any.map (foldComponent u), final.map (foldComponent u)⟩ := by
  rw [componentsFrom_any]
  cases final with
  | none => simp [componentsFrom]
  | some f =>
    have hi : i + any.length = n - 1 := by simp [hn]
    simp [componentsFrom, hi]

theorem components_choices (u : Unicode) (c : Components) :
    components u c.choices = some (c.map (foldComponent u)) := by
  obtain ⟨initial, any, final⟩ := c
  cases initial with
  | none =>
    have htail := componentsFrom_tail u (i := 0) none any final rfl
    simpa [components, Components.choices, Components.map] using htail
  | some s =>
    have hn : (Components.choices ⟨some s, any, final⟩).length =
        1 + any.length + final.toList.length := by
      simp only [Components.choices, Option.toList_some, List.map_cons, List.map_nil,
        List.length_append, List.length_cons, List.length_nil, List.length_map, Nat.zero_add]
    have htail := componentsFrom_tail u (some (foldComponent u s)) any final hn
    simpa [components, Components.choices, Components.map, componentsFrom] using htail

theorem substringMatch_iff_eq {value : Str} {c : Components}
    (h : value.length = c.pieces.flatten.length) :
    substringMatch value c = true ↔ value = c.pieces.flatten := by
  rw [substringMatch_iff_arranged, c.flatten_pieces]
  rw [c.flatten_pieces, List.length_append] at h
  constructor
  · rintro ⟨rest, rfl, harr⟩
    rw [List.length_append] at h
    rw [(arranged_iff_eq (by omega)).mp harr]
  · intro hvalue
    exact ⟨_, hvalue, (arranged_iff_eq rfl).mpr rfl⟩

theorem flatten_map_foldComponent (tables : CaseTables) {ps : List Str}
    (h : ∀ qs rs, ps = qs ++ rs → qs ≠ [] → rs ≠ [] →
      ∀ x ∈ rs.flatten.head?, Str.isWhitespace x = false) :
    (ps.map (foldComponent (.ofTables tables))).flatten =
      foldComponent (.ofTables tables) ps.flatten := by
  induction ps with
  | nil => rfl
  | cons p ps ih =>
    have htail : ∀ x ∈ ps.flatten.head?, Str.isWhitespace x = false := by
      cases ps with
      | nil => nofun
      | cons q ps => exact h [p] (q :: ps) rfl (List.cons_ne_nil _ _) (List.cons_ne_nil _ _)
    have hps := ih fun qs rs heq _ hrs =>
      h (p :: qs) rs (by rw [heq]; rfl) (List.cons_ne_nil _ _) hrs
    rw [List.map_cons, List.flatten_cons, List.flatten_cons, hps]
    simp only [foldComponent, foldComponentFrom_eq, collapseFrom_append htail, List.flatMap_append]

theorem anyValue_eq_true_iff {entry : Entry} {attr : Str} {test : Str → Bool} :
    anyValue entry attr test = .true ↔ ∃ v ∈ entry.valuesOf attr, test v = true := by
  rw [anyValue, Entry.valuesOf]
  cases entry.get attr with
  | none => simp [Tri.ofBool]
  | some vals => simp [Tri.ofBool]

section Cut

variable (tables : CaseTables) {c : Components} {v : Str}

theorem Components.Cuts.flatten_map (h : c.Cuts v) :
    (c.map (foldComponent (.ofTables tables))).pieces.flatten =
      foldComponent (.ofTables tables) v := by
  rw [c.pieces_map, flatten_map_foldComponent, h.whole]
  intro qs rs heq hqs hrs
  exact (h.clean qs rs heq hqs hrs).2

-- Folding keeps the length either way, so the components can only match by
-- being the whole value.
theorem Components.Cuts.matches_iff (h : c.Cuts v) (hv : Str.Trimmed v) :
    substringMatch (fold (.ofTables tables) v) (c.map (foldComponent (.ofTables tables))) = true ↔
      tables.NoFinalSigma (Str.join ' ' (splitWhitespace v)) := by
  have hfold : fold (.ofTables tables) v =
      tables.toLowercase (Str.join ' ' (splitWhitespace v)) := rfl
  have hflat := (h.flatten_map tables).trans (foldComponent_of_trimmed tables hv)
  have hlen : (fold (.ofTables tables) v).length =
      (c.map (foldComponent (.ofTables tables))).pieces.flatten.length := by
    rw [hfold, hflat, CaseTables.toLowercase, tables.length_lowerFrom]
  rw [substringMatch_iff_eq hlen, hfold, hflat, tables.toLowercase_eq_flatMap_iff]

/-- A value always matches the components it is cut into exactly when none of
its sigmas ends a word. -/
theorem evaluate_substrings_of_cuts (attr : Str) (hv : Str.Trimmed v) (h : c.Cuts v) :
    (∀ entry : Entry, v ∈ entry.valuesOf attr →
        evaluate (.ofTables tables) entry (.substrings ⟨attr, c.choices⟩) = .true) ↔
      tables.NoFinalSigma (Str.join ' ' (splitWhitespace v)) := by
  have hmatch : ∀ entry : Entry,
      evaluate (.ofTables tables) entry (.substrings ⟨attr, c.choices⟩) = .true ↔
        ∃ w ∈ entry.valuesOf attr, substringMatch (fold (.ofTables tables) w)
          (c.map (foldComponent (.ofTables tables))) = true := by
    intro entry
    rw [evaluate, substringsMatch, components_choices, anyValue_eq_true_iff]
  rw [← h.matches_iff tables hv]
  constructor
  · intro hall
    have hvalues : (Entry.new.set attr [v]).valuesOf attr = [v] := by
      rw [Entry.valuesOf_set, if_pos rfl]
    obtain ⟨w, hw, hmatchw⟩ := (hmatch _).mp (hall (Entry.new.set attr [v]) (by simp [hvalues]))
    rw [hvalues, List.mem_singleton] at hw
    rwa [hw] at hmatchw
  · intro hsub entry hmem
    exact (hmatch entry).mpr ⟨v, hmem, hsub⟩

end Cut

def greek : CaseTables where
  toLower c := if 0x391 ≤ c.toNat ∧ c.toNat ≤ 0x3A9 then [.ofNat (c.toNat + 0x20)] else [c.toLower]
  cased c := c.isAlpha || (0x391 ≤ c.toNat && c.toNat ≤ 0x3C9)
  caseIgnorable _ := false
  toLower_sigma := by decide
  toLower_blank := by decide
  toLower_ascii c := by
    cases h : c.isAlpha with
    | false =>
      have hc : c.toLower = c := (Str.toLower_eq_iff h c).mpr rfl
      rw [hc, hc]
    | true =>
      have hc := Str.toNat_of_isAlpha h
      have hlow := Str.toNat_of_isAlpha (c := c.toLower) (by rw [Char.isAlpha_toLower_eq_isAlpha, h])
      rw [if_neg (by omega), if_neg (by omega)]
      simp
  cased_ascii c := by
    cases h : c.isAlpha with
    | false => rw [(Str.toLower_eq_iff h c).mpr rfl, h]
    | true => simp [Char.isAlpha_toLower_eq_isAlpha, h]
  caseIgnorable_ascii _ := rfl

def bisected (initial final : Str) : Components := ⟨some initial, [], some final⟩

theorem bisected_cuts {initial final : Str} (hi : Str.Trimmed initial) (hf : Str.Trimmed final) :
    (bisected initial final).Cuts (initial ++ final) where
  whole := by simp [bisected, Components.pieces]
  clean := by
    intro ps qs h hps hqs
    match ps, qs, h with
    | [], _, _ => exact absurd rfl hps
    | _, [], _ => exact absurd rfl hqs
    | [p], [q], h =>
      obtain ⟨rfl, rfl⟩ : initial = p ∧ final = q := by simpa [bisected, Components.pieces] using h
      simpa using And.intro hi.last hf.head
    | p :: p' :: ps, q :: qs, h => simp [bisected, Components.pieces] at h
    | [p], q :: q' :: qs, h => simp [bisected, Components.pieces] at h

theorem trimmed_of_all {s : Str} (h : (s.all fun c => !Str.isWhitespace c) = true) :
    Str.Trimmed s where
  head c hc := by simpa using List.all_eq_true.mp h c (List.mem_of_mem_head? hc)
  last c hc := by simpa using List.all_eq_true.mp h c (List.mem_of_getLast? hc)

def odos : Str := ['Ο', 'Δ', 'Ο', 'Σ']

theorem evaluate_substrings_of_odo :
    evaluate (.ofTables greek) (Entry.new.set "street" [['Ο', 'Δ'] ++ ['Ο']])
      (.substrings ⟨"street", (bisected ['Ο', 'Δ'] ['Ο']).choices⟩) = .true := by
  refine (evaluate_substrings_of_cuts greek "street" (trimmed_of_all (by decide))
    (bisected_cuts (trimmed_of_all (by decide)) (trimmed_of_all (by decide)))).mpr ?_ _ (by decide)
  intro x y h
  have hmem : 'Σ' ∈ Str.join ' ' (splitWhitespace (['Ο', 'Δ'] ++ ['Ο'])) := by
    rw [h]
    simp
  exact absurd hmem (by decide)

/-- The value folds to a final sigma, its component to a medial one. -/
theorem not_evaluate_substrings_of_odos :
    odos.Trimmed ∧ (bisected ['Ο', 'Δ'] ['Ο', 'Σ']).Cuts odos ∧
      odos ∈ (Entry.new.set "street" [odos]).valuesOf "street" ∧
      evaluate (.ofTables greek) (Entry.new.set "street" [odos])
        (.substrings ⟨"street", (bisected ['Ο', 'Δ'] ['Ο', 'Σ']).choices⟩) = .false := by
  refine ⟨trimmed_of_all (by decide),
    bisected_cuts (trimmed_of_all (by decide)) (trimmed_of_all (by decide)), by decide, ?_⟩
  decide +kernel

end Filter

end IronDirectory.Ldap
