import IronDirectory.Defs.Base.Text

universe u

namespace IronDirectory.Base

structure Codec (α : Type u) where
  encode : α → Except Str Bytes
  decode : Bytes → Except Str α

namespace Codec

variable {α : Type u}

structure Lawful (c : Codec α) (wf : α → Prop) : Prop where
  exists_encode : ∀ x, wf x → ∃ b, c.encode x = .ok b ∧ c.decode b = .ok x

theorem Lawful.decode_encode {c : Codec α} {wf : α → Prop} (h : c.Lawful wf) {x : α} {b : Bytes}
    (hx : wf x) (hb : c.encode x = .ok b) : c.decode b = .ok x := by
  obtain ⟨b', hb', hdec⟩ := h.exists_encode x hx
  rw [hb] at hb'
  cases hb'
  exact hdec

def unary [Encodable α] : Codec α where
  encode x := .ok (List.replicate (Encodable.encode x) 0)
  decode b :=
    match (Encodable.decode b.length : Option α) with
    | some x => .ok x
    | none => .error "out of range"

theorem unary_lawful [Encodable α] (wf : α → Prop) : (unary : Codec α).Lawful wf where
  exists_encode := by
    intro x _
    refine ⟨_, rfl, ?_⟩
    simp only [unary, List.length_replicate, Encodable.encodek]

end Codec

end IronDirectory.Base
