import Mathlib.Data.List.Rotate

universe u

namespace IronDirectory.Base.Lists

variable {α : Type u}

def rotateRight (k : Nat) (l : List α) : List α := l.rotate (l.length - k % l.length)

@[simp] theorem length_rotateRight (k : Nat) (l : List α) : (rotateRight k l).length = l.length :=
  List.length_rotate l _

theorem rotate_rotateRight (k : Nat) (l : List α) : (rotateRight k l).rotate k = l := by
  cases l with
  | nil => simp [rotateRight]
  | cons a l =>
    have hmod : k % (a :: l).length < (a :: l).length := Nat.mod_lt _ (by simp)
    have hsum : (a :: l).length - k % (a :: l).length + k =
        (a :: l).length * (1 + k / (a :: l).length) := by
      have hdiv := Nat.div_add_mod k (a :: l).length
      rw [Nat.mul_add, Nat.mul_one]
      omega
    rw [rotateRight, List.rotate_rotate, hsum, List.rotate_length_mul]

theorem rotateRight_zero (l : List α) : rotateRight 0 l = l := by
  have hzero := rotate_rotateRight 0 l
  rwa [List.rotate_zero] at hzero

theorem rotateRight_rotateRight (j k : Nat) (l : List α) :
    rotateRight j (rotateRight k l) = rotateRight (j + k) l := by
  apply List.rotate_injective (j + k)
  change (rotateRight j (rotateRight k l)).rotate (j + k) = (rotateRight (j + k) l).rotate (j + k)
  rw [rotate_rotateRight, ← List.rotate_rotate, rotate_rotateRight, rotate_rotateRight]

theorem rotateRight_eq_take_drop (k : Nat) (l : List α) :
    rotateRight k l = ((l ++ l).drop (l.length - k % l.length)).take l.length := by
  have hle : l.length - k % l.length ≤ l.length := Nat.sub_le _ _
  have hfirst : (l.drop (l.length - k % l.length)).length ≤ l.length := by
    rw [List.length_drop]
    exact Nat.sub_le _ _
  rw [rotateRight, List.rotate_eq_drop_append_take hle, List.drop_append_of_le_length hle,
    List.take_append, List.take_of_length_le hfirst, List.length_drop, Nat.sub_sub_self hle]

end IronDirectory.Base.Lists
