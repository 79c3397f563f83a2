import IronDirectory.Defs.Base.Outcome
import IronDirectory.Defs.Base.Text

/-! Readers that go forward through a byte string.  `st pre rest` is the state of
a reader that has read `pre` and has `rest` before it. -/

namespace IronDirectory.Base

variable {σ ε α β : Type} {st : Bytes → Bytes → σ}

/-- After `pre`, the reader takes `enc` for `a`, whatever follows. -/
def Takes (st : Bytes → Bytes → σ) (read : StateT σ (Except ε) α) (pre enc : Bytes) (a : α) :
    Prop :=
  ∀ post, read.run (st pre (enc ++ post)) = .ok (a, st (pre ++ enc) post)

namespace Takes

variable {read : StateT σ (Except ε) α} {f : α → StateT σ (Except ε) β} {pre enc enc' : Bytes}
  {a : α} {b : β}

theorem pure (pre : Bytes) (a : α) : Takes st (Pure.pure a : StateT σ (Except ε) α) pre [] a := by
  intro post
  rw [List.append_nil]
  rfl

theorem bind (hread : Takes st read pre enc a) (hf : Takes st (f a) (pre ++ enc) enc' b) :
    Takes st (read >>= f) pre (enc ++ enc') b := by
  intro post
  rw [StateT.run_bind, List.append_assoc, hread, Outcome.ok_bind, hf, List.append_assoc]

theorem map {g : α → β} (hread : Takes st read pre enc a) :
    Takes st (read >>= fun a => Pure.pure (g a)) pre enc (g a) := by
  have h := bind (f := fun a => Pure.pure (g a)) hread (.pure (pre ++ enc) (g a))
  rwa [List.append_nil] at h

end Takes

def Spends (left : σ → Nat) (read : StateT σ (Except ε) α) (Q : Nat → α → Prop) : Prop :=
  ∀ ⦃s t a⦄, read.run s = .ok (a, t) → ∃ k, left t + k = left s ∧ Q k a

namespace Spends

variable {left : σ → Nat} {read : StateT σ (Except ε) α} {f : α → StateT σ (Except ε) β}
  {Q Q' : Nat → α → Prop} {R : Nat → β → Prop}

theorem pure {a : α} (h : Q 0 a) : Spends left (Pure.pure a : StateT σ (Except ε) α) Q := by
  intro s t b hrun
  cases hrun
  exact ⟨0, rfl, h⟩

theorem throw (e : ε) : Spends left (MonadExcept.throw e : StateT σ (Except ε) α) Q := by
  intro s t b hrun
  cases hrun

theorem bind (hread : Spends left read Q)
    (hf : ∀ k a, Q k a → Spends left (f a) fun j b => R (k + j) b) :
    Spends left (read >>= f) R := by
  intro s u b hrun
  rw [StateT.run_bind] at hrun
  obtain ⟨⟨a, t⟩, hfirst, hrest⟩ := Outcome.bind_eq_ok.mp hrun
  obtain ⟨k, hk, hQ⟩ := hread hfirst
  obtain ⟨j, hj, hR⟩ := hf k a hQ (show (f a).run t = .ok (b, u) from hrest)
  exact ⟨k + j, by omega, hR⟩

theorem mono (hread : Spends left read Q) (h : ∀ k a, Q k a → Q' k a) : Spends left read Q' := by
  intro s t a hrun
  obtain ⟨k, hk, hQ⟩ := hread hrun
  exact ⟨k, hk, h k a hQ⟩

end Spends

end IronDirectory.Base
