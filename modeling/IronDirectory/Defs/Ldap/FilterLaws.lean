import IronDirectory.Defs.Ldap.Filter

namespace IronDirectory.Ldap

open Base Storage

namespace Tri

def and : Tri → Tri → Tri
  | .false, _ => .false
  | .true, t => t
  | .undefined, .false => .false
  | .undefined, _ => .undefined

def or : Tri → Tri → Tri
  | .true, _ => .true
  | .false, t => t
  | .undefined, .true => .true
  | .undefined, _ => .undefined

def conj (ts : List Tri) : Tri := ts.foldr and .true

def disj (ts : List Tri) : Tri := ts.foldr or .false

inductive Refines : Tri → Tri → Prop
  | refl (t : Tri) : Refines t t
  | undefined (t : Tri) : Refines .undefined t

variable (r s t : Tri)

@[simp] theorem not_not : t.not.not = t := by cases t <;> rfl

@[simp] theorem true_and : Tri.true.and t = t := rfl

@[simp] theorem and_true : t.and .true = t := by cases t <;> rfl

@[simp] theorem and_self : t.and t = t := by cases t <;> rfl

theorem and_comm : s.and t = t.and s := by cases s <;> cases t <;> rfl

theorem and_assoc : (r.and s).and t = r.and (s.and t) := by
  cases r <;> cases s <;> cases t <;> rfl

@[simp] theorem not_and : (s.and t).not = s.not.or t.not := by cases s <;> cases t <;> rfl

@[simp] theorem not_or : (s.or t).not = s.not.and t.not := by cases s <;> cases t <;> rfl

@[simp] theorem false_or : Tri.false.or t = t := rfl

@[simp] theorem or_false : t.or .false = t := by cases t <;> rfl

@[simp] theorem or_self : t.or t = t := by cases t <;> rfl

theorem or_assoc : (r.or s).or t = r.or (s.or t) := by
  cases r <;> cases s <;> cases t <;> rfl

@[simp] theorem conj_nil : conj [] = .true := rfl

@[simp] theorem conj_cons (ts : List Tri) : conj (t :: ts) = t.and (conj ts) := rfl

@[simp] theorem disj_nil : disj [] = .false := rfl

@[simp] theorem disj_cons (ts : List Tri) : disj (t :: ts) = t.or (disj ts) := rfl

theorem not_conj (ts : List Tri) : (conj ts).not = disj (ts.map Tri.not) := by
  induction ts with
  | nil => rfl
  | cons t ts ih => simp [ih]

theorem not_disj (ts : List Tri) : (disj ts).not = conj (ts.map Tri.not) := by
  induction ts with
  | nil => rfl
  | cons t ts ih => simp [ih]

theorem conj_append (ss ts : List Tri) : conj (ss ++ ts) = (conj ss).and (conj ts) := by
  induction ss with
  | nil => rfl
  | cons s ss ih => simp [ih, and_assoc]

theorem disj_eq_not_conj (ts : List Tri) : disj ts = (conj (ts.map Tri.not)).not := by
  rw [← not_disj, not_not]

theorem disj_append (ss ts : List Tri) : disj (ss ++ ts) = (disj ss).or (disj ts) := by
  simp only [disj_eq_not_conj, List.map_append, conj_append, not_and]

theorem conj_perm {ss ts : List Tri} (h : ss.Perm ts) : conj ss = conj ts := by
  induction h with
  | nil => rfl
  | cons t _ ih => rw [conj_cons, conj_cons, ih]
  | swap s t ts => simp only [conj_cons, ← and_assoc, and_comm s t]
  | trans _ _ ih ih' => exact ih.trans ih'

theorem disj_perm {ss ts : List Tri} (h : ss.Perm ts) : disj ss = disj ts := by
  rw [disj_eq_not_conj, disj_eq_not_conj, conj_perm (h.map _)]

variable {r s t}

theorem Refines.not {s t : Tri} (h : Refines s t) : Refines s.not t.not := by
  cases h with
  | refl => exact .refl _
  | undefined => exact .undefined _

theorem Refines.and {r s r' t : Tri} (h : Refines r s) (h' : Refines r' t) :
    Refines (r.and r') (s.and t) := by
  cases h with
  | refl r =>
    cases h' with
    | refl => exact .refl _
    | undefined t =>
      cases r with
      | true => exact .undefined _
      | false => exact .refl _
      | undefined => exact .undefined _
  | undefined s =>
    cases h' with
    | undefined => exact .undefined _
    | refl =>
      cases r' with
      | true => exact .undefined _
      | false => cases s <;> exact .refl _
      | undefined => exact .undefined _

theorem Refines.eq (h : Refines s t) (hs : s ≠ .undefined) : t = s := by
  cases h with
  | refl => rfl
  | undefined => exact absurd rfl hs

/-- `t` is a two-valued result in agreement with `s`. -/
structure Settles (s t : Tri) : Prop where
  refines : Refines s t
  defined : t ≠ .undefined

theorem Settles.not {s t : Tri} (h : Settles s t) : Settles s.not t.not where
  refines := h.refines.not
  defined := by
    have ht := h.defined
    cases t with
    | true | false => nofun
    | undefined => exact absurd rfl ht

theorem Settles.and {r s r' t : Tri} (h : Settles r s) (h' : Settles r' t) :
    Settles (r.and r') (s.and t) where
  refines := h.refines.and h'.refines
  defined := by
    have hs := h.defined
    cases s with
    | true => exact h'.defined
    | false => nofun
    | undefined => exact absurd rfl hs

theorem Settles.or {r s r' t : Tri} (h : Settles r s) (h' : Settles r' t) :
    Settles (r.or r') (s.or t) := by
  simpa using (h.not.and h'.not).not

theorem Settles.conj {ss ts : List Tri} (h : List.Forall₂ Settles ss ts) :
    Settles (conj ss) (conj ts) := by
  induction h with
  | nil => exact ⟨.refl _, nofun⟩
  | cons h _ ih => exact h.and ih

theorem Settles.disj {ss ts : List Tri} (h : List.Forall₂ Settles ss ts) :
    Settles (disj ss) (disj ts) := by
  induction h with
  | nil => exact ⟨.refl _, nofun⟩
  | cons h _ ih => exact h.or ih

def read (t : Tri) (b : Bool) : Bool :=
  match t with
  | .true => Bool.true
  | .false => Bool.false
  | .undefined => b

theorem ofBool_not (b : Bool) : ofBool (!b) = (ofBool b).not := by cases b <;> rfl

theorem conj_map_ofBool (bs : List Bool) : conj (bs.map ofBool) = ofBool (bs.all id) := by
  induction bs with
  | nil => rfl
  | cons b bs ih => cases b <;> simp [ih, ofBool, and]

theorem disj_map_ofBool (bs : List Bool) : disj (bs.map ofBool) = ofBool (bs.any id) := by
  induction bs with
  | nil => rfl
  | cons b bs ih => cases b <;> simp [ih, ofBool, or]

end Tri

namespace Filter

section Connectives

variable (u : Unicode) (entry : Entry)

theorem evaluateAnd_eq (fs : List Filter) {result : Tri} (h : result ≠ .false) :
    evaluateAnd u entry result fs = result.and (.conj (fs.map (evaluate u entry))) := by
  induction fs generalizing result with
  | nil => simp [evaluateAnd]
  | cons f fs ih =>
    rw [evaluateAnd, List.map_cons, Tri.conj_cons]
    cases evaluate u entry f with
    | true => exact ih h
    | false => cases result <;> rfl
    | undefined =>
      show evaluateAnd u entry .undefined fs = _
      rw [ih (by decide)]
      cases result with
      | true => rfl
      | false => exact absurd rfl h
      | undefined => rw [← Tri.and_assoc, Tri.and_self]

theorem evaluateOr_eq (fs : List Filter) {result : Tri} (h : result ≠ .true) :
    evaluateOr u entry result fs = result.or (.disj (fs.map (evaluate u entry))) := by
  induction fs generalizing result with
  | nil => simp [evaluateOr]
  | cons f fs ih =>
    rw [evaluateOr, List.map_cons, Tri.disj_cons]
    cases evaluate u entry f with
    | false => exact ih h
    | true => cases result <;> rfl
    | undefined =>
      show evaluateOr u entry .undefined fs = _
      rw [ih (by decide)]
      cases result with
      | true => exact absurd rfl h
      | false => simp
      | undefined => rw [← Tri.or_assoc, Tri.or_self]

@[simp] theorem evaluate_and (fs : List Filter) :
    evaluate u entry (.and fs) = .conj (fs.map (evaluate u entry)) := by
  rw [evaluate, evaluateAnd_eq u entry fs (by decide), Tri.true_and]

@[simp] theorem evaluate_or (fs : List Filter) :
    evaluate u entry (.or fs) = .disj (fs.map (evaluate u entry)) := by
  rw [evaluate, evaluateOr_eq u entry fs (by decide), Tri.false_or]

@[simp] theorem evaluate_not (f : Filter) :
    evaluate u entry (.not f) = (evaluate u entry f).not := by
  rw [evaluate]

end Connectives

/-- Equal by reordering, duplicating and flattening operands, double negation
and De Morgan's laws, anywhere in the filter. -/
inductive Rewrites : Filter → Filter → Prop
  | refl (f) : Rewrites f f
  | symm : Rewrites f g → Rewrites g f
  | trans : Rewrites f g → Rewrites g h → Rewrites f h
  | and_perm : fs.Perm gs → Rewrites (.and fs) (.and gs)
  | or_perm : fs.Perm gs → Rewrites (.or fs) (.or gs)
  | and_dup (f fs) : Rewrites (.and (f :: fs)) (.and (f :: f :: fs))
  | or_dup (f fs) : Rewrites (.or (f :: fs)) (.or (f :: f :: fs))
  | and_flatten (fs gs) : Rewrites (.and (.and fs :: gs)) (.and (fs ++ gs))
  | or_flatten (fs gs) : Rewrites (.or (.or fs :: gs)) (.or (fs ++ gs))
  | and_single (f) : Rewrites (.and [f]) f
  | or_single (f) : Rewrites (.or [f]) f
  | not_not (f) : Rewrites (.not (.not f)) f
  | not_and (fs : List Filter) : Rewrites (.not (.and fs)) (.or (fs.map .not))
  | not_or (fs : List Filter) : Rewrites (.not (.or fs)) (.and (fs.map .not))
  | and_congr (fs) : Rewrites f g → Rewrites (.and (f :: fs)) (.and (g :: fs))
  | or_congr (fs) : Rewrites f g → Rewrites (.or (f :: fs)) (.or (g :: fs))
  | not_congr : Rewrites f g → Rewrites (.not f) (.not g)

theorem Rewrites.evaluate_eq (u : Unicode) (entry : Entry) {f g : Filter} (h : Rewrites f g) :
    evaluate u entry f = evaluate u entry g := by
  induction h with
  | refl => rfl
  | symm _ ih => exact ih.symm
  | trans _ _ ih ih' => exact ih.trans ih'
  | and_perm h => simpa using Tri.conj_perm (h.map _)
  | or_perm h => simpa using Tri.disj_perm (h.map _)
  | and_dup f fs => simp [← Tri.and_assoc]
  | or_dup f fs => simp [← Tri.or_assoc]
  | and_flatten fs gs => simp [Tri.conj_append]
  | or_flatten fs gs => simp [Tri.disj_append]
  | and_single | or_single | not_not => simp
  | not_and fs => simp [Tri.not_conj, Function.comp_def]
  | not_or fs => simp [Tri.not_disj, Function.comp_def]
  | and_congr _ _ ih | or_congr _ _ ih | not_congr _ ih => simp [ih]

section Readings

variable (u : Unicode) (entry : Entry)

def constant (b : Bool) : Filter := if b then .and [] else .or []

def readItem (reading : Bool) (item : Filter) : Filter :=
  if evaluate u entry item = .undefined then constant reading else item

mutual

/-- The filter with each Undefined item replaced by TRUE or FALSE, as chosen
for the item's place in the filter. -/
def readAs (reading : List Nat → Bool) : Filter → Filter
  | .and fs => .and (readAllAs reading 0 fs)
  | .or fs => .or (readAllAs reading 0 fs)
  | .not f => .not (readAs reading f)
  | item => readItem u entry (reading []) item

def readAllAs (reading : List Nat → Bool) (i : Nat) : List Filter → List Filter
  | [] => []
  | f :: fs => readAs (fun place => reading (i :: place)) f :: readAllAs reading (i + 1) fs

end

mutual

/-- The filter as a formula of two-valued logic over the results of its items,
an Undefined one read as chosen for its place. -/
def holdsAs (reading : List Nat → Bool) : Filter → Bool
  | .and fs => (allHoldAs reading 0 fs).all id
  | .or fs => (allHoldAs reading 0 fs).any id
  | .not f => !holdsAs reading f
  | item => (evaluate u entry item).read (reading [])

def allHoldAs (reading : List Nat → Bool) (i : Nat) : List Filter → List Bool
  | [] => []
  | f :: fs => holdsAs (fun place => reading (i :: place)) f :: allHoldAs reading (i + 1) fs

end

theorem evaluate_constant (b : Bool) : evaluate u entry (constant b) = .ofBool b := by
  cases b <;> rfl

theorem readItem_settles (reading : Bool) (item : Filter) :
    Tri.Settles (evaluate u entry item) (evaluate u entry (readItem u entry reading item)) := by
  rw [readItem]
  split
  · next h =>
    rw [h, evaluate_constant]
    exact ⟨.undefined _, by cases reading <;> nofun⟩
  · next h => exact ⟨.refl _, h⟩

mutual

theorem readAs_settles (reading : List Nat → Bool) : (f : Filter) →
    Tri.Settles (evaluate u entry f) (evaluate u entry (readAs u entry reading f))
  | .and fs => by
    rw [readAs, evaluate_and, evaluate_and]
    exact .conj (readAllAs_settles reading 0 fs)
  | .or fs => by
    rw [readAs, evaluate_or, evaluate_or]
    exact .disj (readAllAs_settles reading 0 fs)
  | .not f => by
    rw [readAs, evaluate_not, evaluate_not]
    exact (readAs_settles reading f).not
  | .present _ | .equalityMatch _ | .approxMatch _ | .substrings _ | .greaterOrEqual _
  | .lessOrEqual _ | .extensibleMatch _ | .unrecognized => by
    simpa only [readAs] using readItem_settles u entry (reading []) _

theorem readAllAs_settles (reading : List Nat → Bool) (i : Nat) : (fs : List Filter) →
    List.Forall₂ Tri.Settles (fs.map (evaluate u entry))
      ((readAllAs u entry reading i fs).map (evaluate u entry))
  | [] => by
    rw [readAllAs]
    exact .nil
  | f :: fs => by
    rw [readAllAs]
    exact .cons (readAs_settles _ f) (readAllAs_settles reading (i + 1) fs)

end

theorem evaluate_readItem (reading : Bool) (item : Filter) :
    evaluate u entry (readItem u entry reading item) =
      .ofBool ((evaluate u entry item).read reading) := by
  rw [readItem]
  split
  · next h => rw [h, evaluate_constant, Tri.read]
  · next h =>
    cases hitem : evaluate u entry item with
    | true | false => rfl
    | undefined => exact absurd hitem h

mutual

theorem evaluate_readAs (reading : List Nat → Bool) : (f : Filter) →
    evaluate u entry (readAs u entry reading f) = .ofBool (holdsAs u entry reading f)
  | .and fs => by
    rw [readAs, holdsAs, evaluate_and, evaluate_readAllAs, Tri.conj_map_ofBool]
  | .or fs => by
    rw [readAs, holdsAs, evaluate_or, evaluate_readAllAs, Tri.disj_map_ofBool]
  | .not f => by
    rw [readAs, holdsAs, evaluate_not, evaluate_readAs reading f, Tri.ofBool_not]
  | .present _ | .equalityMatch _ | .approxMatch _ | .substrings _ | .greaterOrEqual _
  | .lessOrEqual _ | .extensibleMatch _ | .unrecognized => by
    simpa only [readAs, holdsAs] using evaluate_readItem u entry (reading []) _

theorem evaluate_readAllAs (reading : List Nat → Bool) (i : Nat) : (fs : List Filter) →
    (readAllAs u entry reading i fs).map (evaluate u entry) =
      (allHoldAs u entry reading i fs).map .ofBool
  | [] => by rw [readAllAs, allHoldAs, List.map_nil, List.map_nil]
  | f :: fs => by
    rw [readAllAs, allHoldAs, List.map_cons, List.map_cons, evaluate_readAs _ f,
      evaluate_readAllAs reading (i + 1) fs]

end

/-- Rewriting a filter does not change its result; with the Undefined items read
in some way, the result is that of two-valued logic; and a result that is not
Undefined is the result under every such reading. -/
theorem evaluate_three_valued (f : Filter) :
    (∀ g, Rewrites f g → evaluate u entry g = evaluate u entry f) ∧
      ∀ reading,
        evaluate u entry (readAs u entry reading f) = .ofBool (holdsAs u entry reading f) ∧
        evaluate u entry (readAs u entry reading f) ≠ .undefined ∧
        (evaluate u entry f ≠ .undefined →
          evaluate u entry (readAs u entry reading f) = evaluate u entry f) ∧
        (matchesEntry u entry f = true →
          matchesEntry u entry (readAs u entry reading f) = true) := by
  refine ⟨fun g h => (h.evaluate_eq u entry).symm, fun reading => ?_⟩
  have hread := readAs_settles u entry reading f
  refine ⟨evaluate_readAs u entry reading f, hread.defined, hread.refines.eq, ?_⟩
  intro hmatch
  rw [matchesEntry, beq_iff_eq] at hmatch ⊢
  rw [hread.refines.eq (by rw [hmatch]; decide), hmatch]

end Readings

end Filter

end IronDirectory.Ldap
