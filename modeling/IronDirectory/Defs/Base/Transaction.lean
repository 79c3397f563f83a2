import IronDirectory.Defs.Base.OrderedMap

universe u v

namespace IronDirectory.Base

inductive TxnOp (K : Type u) (V : Type v)
  | put : K → V → TxnOp K V
  | delete : K → TxnOp K V

namespace TxnOp

variable {K : Type u} {V : Type v} [LinearOrder K]

def apply (m : OrderedMap K V) : TxnOp K V → OrderedMap K V
  | .put k v => m.insert k v
  | .delete k => m.erase k

def applyAll (ops : List (TxnOp K V)) (m : OrderedMap K V) : OrderedMap K V :=
  ops.foldl apply m

@[simp] theorem applyAll_nil (m : OrderedMap K V) : applyAll [] m = m := rfl

@[simp] theorem applyAll_cons (op : TxnOp K V) (ops : List (TxnOp K V)) (m : OrderedMap K V) :
    applyAll (op :: ops) m = applyAll ops (apply m op) := rfl

theorem applyAll_append (ops ops' : List (TxnOp K V)) (m : OrderedMap K V) :
    applyAll (ops ++ ops') m = applyAll ops' (applyAll ops m) := by
  simp [applyAll, List.foldl_append]

theorem find?_applyAll_delete [BEq K] [LawfulBEq K] (ks : List K) (m : OrderedMap K V) (k : K) :
    (applyAll (ks.map .delete) m).find? k = if k ∈ ks then none else m.find? k := by
  induction ks generalizing m with
  | nil => simp
  | cons a ks ih =>
    rw [List.map_cons, applyAll_cons, ih, apply, OrderedMap.find?_erase]
    by_cases ha : k = a <;> by_cases hk : k ∈ ks <;> simp [ha, hk]

theorem find?_applyAll_put [BEq K] [LawfulBEq K] (ks : List K) (v : V) (m : OrderedMap K V)
    (k : K) :
    (applyAll (ks.map fun a => .put a v) m).find? k = if k ∈ ks then some v else m.find? k := by
  induction ks generalizing m with
  | nil => simp
  | cons a ks ih =>
    rw [List.map_cons, applyAll_cons, ih, apply, OrderedMap.find?_insert]
    by_cases ha : k = a <;> by_cases hk : k ∈ ks <;> simp [ha, hk]

section Find

variable {ops : List (TxnOp K V)} {m : OrderedMap K V} {k : K}

def key : TxnOp K V → K
  | .put k _ => k
  | .delete k => k

theorem find?_applyAll_of_some {v : V} (h : (applyAll ops m).find? k = some v) :
    m.find? k = some v ∨ .put k v ∈ ops := by
  induction ops generalizing m with
  | nil => exact .inl h
  | cons op ops ih =>
    obtain h | h := ih h
    · cases op with
      | put k' v' =>
        rw [apply, OrderedMap.find?_insert] at h
        split at h
        · next hk =>
          cases h
          exact .inr (hk ▸ List.mem_cons_self)
        · exact .inl h
      | delete k' =>
        rw [apply, OrderedMap.find?_erase] at h
        split at h
        · cases h
        · exact .inl h
    · exact .inr (List.mem_cons_of_mem _ h)

theorem isSome_find?_applyAll (h : (m.find? k).isSome = true) (hops : .delete k ∉ ops) :
    ((applyAll ops m).find? k).isSome = true := by
  induction ops generalizing m with
  | nil => exact h
  | cons op ops ih =>
    rw [List.mem_cons, not_or] at hops
    refine ih ?_ hops.2
    cases op with
    | put k' v' =>
      rw [apply, OrderedMap.find?_insert]
      split
      · rfl
      · exact h
    | delete k' =>
      rw [apply, OrderedMap.find?_erase, if_neg]
      · exact h
      · rintro rfl
        exact hops.1 rfl

theorem find?_applyAll_of_not_key (hops : ∀ op ∈ ops, op.key ≠ k) :
    (applyAll ops m).find? k = m.find? k := by
  induction ops generalizing m with
  | nil => rfl
  | cons op ops ih =>
    obtain ⟨hop, hops⟩ := List.forall_mem_cons.mp hops
    rw [applyAll_cons, ih hops]
    cases op with
    | put k' v' =>
      rw [apply, OrderedMap.find?_insert]
      exact if_neg (Ne.symm hop)
    | delete k' =>
      rw [apply, OrderedMap.find?_erase]
      exact if_neg (Ne.symm hop)

end Find

end TxnOp

end IronDirectory.Base
