import IronDirectory.Defs.Gc.Session

/-! The replica as a map.  It is keyed by the text of a name, so it is a map
keyed by names only among names that are always spelled alike. -/

namespace IronDirectory.Gc

open Base Naming Storage Ldap

inductive AggregateOp
  | upsert (dn : Dn) (entry : Entry)
  | remove (dn : Dn)

namespace AggregateOp

def dn : AggregateOp → Dn
  | .upsert dn _ => dn
  | .remove dn => dn

def left : AggregateOp → Option Entry
  | .upsert _ entry => some entry
  | .remove _ => none

def apply (a : Aggregate) : AggregateOp → Aggregate
  | .upsert dn entry => a.upsert dn entry
  | .remove dn => a.remove dn

def applyKeyed (m : Dn → Option Entry) (op : AggregateOp) : Dn → Option Entry :=
  fun d => if op.dn.Same d then op.left else m d

theorem get_apply (a : Aggregate) (op : AggregateOp) (d : Dn) :
    (op.apply a).get d = if op.dn.display = d.display then op.left else a.get d := by
  by_cases h : d.display = op.dn.display
  · rw [if_pos h.symm]
    cases op with
    | upsert dn entry =>
      exact congrArg (Option.map Prod.snd) ((OrderedMap.find?_insert ..).trans (if_pos h))
    | remove dn =>
      exact congrArg (Option.map Prod.snd) ((OrderedMap.find?_erase ..).trans (if_pos h))
  · rw [if_neg (Ne.symm h)]
    cases op with
    | upsert dn entry =>
      exact congrArg (Option.map Prod.snd) ((OrderedMap.find?_insert ..).trans (if_neg h))
    | remove dn =>
      exact congrArg (Option.map Prod.snd) ((OrderedMap.find?_erase ..).trans (if_neg h))

end AggregateOp

namespace Aggregate

def after (ops : List AggregateOp) : Aggregate := ops.foldl AggregateOp.apply .new

def keyedAfter (ops : List AggregateOp) : Dn → Option Entry :=
  ops.foldl AggregateOp.applyKeyed fun _ => none

/-- Among these names, the equal ones are those spelled alike. -/
def SpelledAlike (names : Set Dn) : Prop :=
  ∀ d₁ ∈ names, ∀ d₂ ∈ names, d₁.Same d₂ ↔ d₁.display = d₂.display

variable {names : Set Dn}

theorem foldl_get_eq (h : SpelledAlike names) {ops : List AggregateOp}
    (hops : ∀ op ∈ ops, op.dn ∈ names) {a : Aggregate} {m : Dn → Option Entry}
    (ham : ∀ d ∈ names, a.get d = m d) :
    ∀ d ∈ names, (ops.foldl AggregateOp.apply a).get d =
      ops.foldl AggregateOp.applyKeyed m d := by
  induction ops generalizing a m with
  | nil => exact ham
  | cons op ops ih =>
    obtain ⟨hop, hops⟩ := List.forall_mem_cons.mp hops
    refine ih hops ?_
    intro d hd
    rw [AggregateOp.get_apply, AggregateOp.applyKeyed, ham d hd]
    simp only [h op.dn hop d hd]

theorem candidates_baseObject (order : List MapOp → List Str) (a : Aggregate) (d : Dn) :
    candidates order a .baseObject d =
      match a.get d with
      | some e => .ok [(d, e)]
      | none => .error (.new .noSuchObject "") := rfl

/-- For operations and lookups by the given names, the replica is a map keyed
by names exactly if the names are spelled alike. -/
theorem get_eq_keyed_iff (names : Set Dn) (order : List MapOp → List Str) :
    (∀ ops : List AggregateOp, (∀ op ∈ ops, op.dn ∈ names) → ∀ d ∈ names,
        (after ops).get d = keyedAfter ops d ∧
          candidates order (after ops) .baseObject d =
            match keyedAfter ops d with
            | some e => .ok [(d, e)]
            | none => .error (.new .noSuchObject "")) ↔
      SpelledAlike names := by
  constructor
  · intro hall d₁ h₁ d₂ h₂
    have hone := (hall [.upsert d₁ .new] (List.forall_mem_singleton.mpr h₁) d₂ h₂).1
    have hget : (after [.upsert d₁ .new]).get d₂ =
        if d₁.display = d₂.display then some .new else none :=
      AggregateOp.get_apply .new (.upsert d₁ .new) d₂
    have hkeyed : keyedAfter [.upsert d₁ .new] d₂ = if d₁.Same d₂ then some .new else none := rfl
    rw [hget, hkeyed] at hone
    by_cases hsame : d₁.Same d₂ <;> by_cases htext : d₁.display = d₂.display <;>
      simp_all
  · intro h ops hops d hd
    have hget : (after ops).get d = keyedAfter ops d :=
      foldl_get_eq h hops (fun _ _ => rfl) d hd
    refine ⟨hget, ?_⟩
    rw [candidates_baseObject, hget]

section Samples

open Tracked (corpPerson withMail)

/-- The replica holds Alice in the case of her key, and is asked for her in
another. -/
theorem get_ne_keyed_alice :
    (corpPerson "alice").Same (corpPerson "Alice") ∧
      (after [.upsert (corpPerson "alice") (withMail "a@corp")]).get (corpPerson "Alice") = none ∧
      keyedAfter [.upsert (corpPerson "alice") (withMail "a@corp")] (corpPerson "Alice") =
        some (withMail "a@corp") ∧
      (after [.upsert (corpPerson "alice") (withMail "a@corp"),
        .remove (corpPerson "Alice")]).get (corpPerson "alice") = some (withMail "a@corp") := by
  refine ⟨by decide, rfl, rfl, rfl⟩

end Samples

end Aggregate

end IronDirectory.Gc
