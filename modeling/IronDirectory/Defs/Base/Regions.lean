import IronDirectory.Defs.Base.Octets
import IronDirectory.Defs.Base.Outcome

namespace IronDirectory.Base

namespace Bytes

def slice (start len : Nat) (bs : Bytes) : Bytes := (bs.drop start).take len

theorem slice_append (pre mid post : Bytes) :
    slice pre.length mid.length (pre ++ (mid ++ post)) = mid := by
  rw [slice, List.drop_left, List.take_left]

theorem length_slice_le (start len : Nat) (bs : Bytes) : (slice start len bs).length ≤ len :=
  List.length_take_le len _

theorem length_slice {start len : Nat} {bs : Bytes} (h : start + len ≤ bs.length) :
    (slice start len bs).length = len := by
  rw [slice, List.length_take, List.length_drop]
  omega

theorem slice_slice {i m j n : Nat} (h : i + m ≤ n) (bs : Bytes) :
    slice i m (slice j n bs) = slice (j + i) m bs := by
  rw [slice, slice, slice, List.drop_take, List.take_take, List.drop_drop]
  congr 1
  omega

def chunksExact (size : Nat) (bs : Bytes) : List Bytes :=
  (List.range (bs.length / size)).map fun i => slice (size * i) size bs

theorem take_eq_flatten_slices (size count : Nat) (bs : Bytes) :
    ((List.range count).map fun i => slice (size * i) size bs).flatten = bs.take (size * count) := by
  induction count with
  | zero => rfl
  | succ count ih =>
    rw [List.range_succ, List.map_append, List.flatten_append, ih, Nat.mul_succ, List.take_add]
    simp [slice]

theorem flatten_chunksExact {size : Nat} {bs : Bytes} (h : bs.length % size = 0) :
    (chunksExact size bs).flatten = bs := by
  rw [chunksExact, take_eq_flatten_slices, Nat.mul_div_cancel' (Nat.dvd_of_mod_eq_zero h),
    List.take_length]

theorem map_slice_range {γ : Type} {f : γ → Bytes} {width : Nat} {xs : List γ}
    (h : ∀ x ∈ xs, (f x).length = width) (pre post : Bytes) :
    (List.range xs.length).map (fun i =>
      slice (pre.length + width * i) width (pre ++ (xs.flatMap f ++ post))) = xs.map f := by
  induction xs generalizing pre with
  | nil => rfl
  | cons x xs ih =>
    have hx : (f x).length = width := h x List.mem_cons_self
    have hfirst : slice pre.length width (pre ++ ((x :: xs).flatMap f ++ post)) = f x := by
      rw [List.flatMap_cons, List.append_assoc, ← hx]
      exact slice_append pre (f x) _
    have hrest := ih (fun y hy => h y (List.mem_cons_of_mem x hy)) (pre ++ f x)
    rw [List.length_append, hx, List.append_assoc, ← List.append_assoc (f x),
      ← List.flatMap_cons] at hrest
    rw [List.length_cons, List.range_succ_eq_map, List.map_cons, List.map_map, List.map_cons,
      Nat.mul_zero, Nat.add_zero, hfirst, ← hrest]
    refine congrArg (List.cons (f x)) (List.map_congr_left fun i _ => ?_)
    rw [Function.comp_apply, Nat.mul_succ, Nat.add_assoc, Nat.add_comm width]

end Bytes

inductive Halt
  | none
  | panic
  deriving DecidableEq

namespace Checked

open Outcome

def add (x y : Nat) : Except Halt Nat := if x + y < 2 ^ 64 then .ok (x + y) else .error .panic

def index (bs : Bytes) (start len : Nat) : Except Halt Bytes :=
  if start + len ≤ bs.length then .ok (Bytes.slice start len bs) else .error .panic

def get (bs : Bytes) (start len : Nat) : Except Halt Bytes := do
  let stop ← add start len
  ensure (stop ≤ bs.length) .none
  return Bytes.slice start len bs

theorem add_eq_ok {x y : Nat} (h : x + y < 2 ^ 64) : add x y = .ok (x + y) := if_pos h

theorem index_eq_ok {bs : Bytes} {start len : Nat} (h : start + len ≤ bs.length) :
    index bs start len = .ok (Bytes.slice start len bs) := if_pos h

theorem get_eq_ok_iff {bs out : Bytes} {start len : Nat} :
    get bs start len = .ok out ↔
      start + len < 2 ^ 64 ∧ start + len ≤ bs.length ∧ Bytes.slice start len bs = out := by
  simp only [get, add, bind_eq_ok, ensure_eq_ok, pure_eq_ok]
  constructor
  · rintro ⟨stop, hadd, _, hle, rfl⟩
    split at hadd
    · cases hadd
      exact ⟨‹_›, hle, rfl⟩
    · cases hadd
  · rintro ⟨hlt, hle, rfl⟩
    exact ⟨_, if_pos hlt, ⟨⟩, hle, rfl⟩

theorem get_append {bs pre mid post : Bytes} {start len : Nat} (h : bs = pre ++ (mid ++ post))
    (hstart : pre.length = start) (hlen : mid.length = len) (hlt : start + len < 2 ^ 64) :
    get bs start len = .ok mid := by
  subst h hstart hlen
  refine get_eq_ok_iff.mpr ⟨hlt, ?_, Bytes.slice_append pre mid post⟩
  simp only [List.length_append]
  omega

theorem length_of_get {bs out : Bytes} {start len : Nat} (h : get bs start len = .ok out) :
    out.length = len := by
  obtain ⟨_, hle, rfl⟩ := get_eq_ok_iff.mp h
  exact Bytes.length_slice hle

theorem ofLe_lt_of_index {bs out : Bytes} {start len : Nat} (h : index bs start len = .ok out) :
    Bytes.ofLe out < 256 ^ len := by
  unfold index at h
  split at h
  · cases h
    exact (Bytes.ofLe_lt _).trans_le
      (Nat.pow_le_pow_right (by decide) (Bytes.length_slice_le start len bs))
  · cases h

section Panics

abbrev NoPanic {α : Type} (x : Except Halt α) : Prop := Errors (· ≠ .panic) x

theorem noPanic_index {bs : Bytes} {start len : Nat} (h : start + len ≤ bs.length) :
    NoPanic (index bs start len) := by
  rw [index_eq_ok h]
  exact errors_ok _

theorem noPanic_get (bs : Bytes) {start len : Nat} (h : start + len < 2 ^ 64) :
    NoPanic (get bs start len) := by
  rw [get, add_eq_ok h, ok_bind]
  exact errors_bind (errors_ensure nofun) fun _ => errors_pure _

theorem noPanic_bind {α β : Type} {x : Except Halt α} {f : α → Except Halt β} (hx : NoPanic x)
    (hf : ∀ a, x = .ok a → NoPanic (f a)) : NoPanic (x >>= f) := by
  cases x with
  | error e =>
    intro e' he
    cases he
    exact hx e rfl
  | ok a => exact hf a rfl

end Panics

end Checked

structure Region where
  start : Nat
  size : Nat
  deriving DecidableEq

namespace Region

def stop (r : Region) : Nat := r.start + r.size

def zero (r : Region) (bs : Bytes) : Bytes :=
  bs.take r.start ++ (List.replicate r.size 0 ++ bs.drop r.stop)

theorem zero_append (pre mid post : Bytes) :
    zero ⟨pre.length, mid.length⟩ (pre ++ (mid ++ post)) =
      pre ++ (List.replicate mid.length 0 ++ post) := by
  rw [zero, stop, List.take_left, ← List.drop_drop, List.drop_left, List.drop_left]

def Holds (r : Region) (i : Nat) : Prop := r.start ≤ i ∧ i < r.stop

def Disjoint (r s : Region) : Prop := ∀ i, ¬ (r.Holds i ∧ s.Holds i)

def Tiles : Nat → Nat → List Region → Prop
  | start, stop, [] => start = stop
  | start, stop, r :: rs => r.start = start ∧ Tiles r.stop stop rs

theorem Tiles.le {start stop : Nat} {rs : List Region} (h : Tiles start stop rs) :
    start ≤ stop := by
  induction rs generalizing start with
  | nil => exact Nat.le_of_eq h
  | cons r rs ih =>
    have hrest := ih h.2
    have hstart := h.1
    unfold Region.stop at hrest
    omega

theorem Tiles.holds_iff {start stop : Nat} {rs : List Region} (h : Tiles start stop rs) (i : Nat) :
    (∃ r ∈ rs, r.Holds i) ↔ start ≤ i ∧ i < stop := by
  induction rs generalizing start with
  | nil =>
    have heq : start = stop := h
    simp only [List.not_mem_nil, false_and, exists_false, false_iff]
    omega
  | cons r rs ih =>
    have hrest := ih h.2
    have hle := h.2.le
    have hstart := h.1
    simp only [List.mem_cons, exists_eq_or_imp, hrest]
    unfold Holds Region.stop at *
    omega

theorem Tiles.pairwise {start stop : Nat} {rs : List Region} (h : Tiles start stop rs) :
    rs.Pairwise Disjoint := by
  induction rs generalizing start with
  | nil => exact List.Pairwise.nil
  | cons r rs ih =>
    refine List.Pairwise.cons (fun s hs i hi => ?_) (ih h.2)
    have hi' := ((h.2.holds_iff i).mp ⟨s, hs, hi.2⟩).1
    exact absurd hi.1.2 (Nat.not_lt.mpr hi')

end Region

end IronDirectory.Base
