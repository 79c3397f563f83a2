import Mathlib.Data.List.Basic

universe u

namespace IronDirectory.Base

def calls {S R : Type u} (f : S → R × S) : Nat → S → List R × S
  | 0, s => ([], s)
  | n + 1, s => ((f s).1 :: (calls f n (f s).2).1, (calls f n (f s).2).2)

theorem calls_of_simulation {S T R : Type u} {f : S → R × S} {g : T → R × T}
    {Rel : S → T → Prop}
    (hstep : ∀ s t, Rel s t → (f s).1 = (g t).1 ∧ Rel (f s).2 (g t).2) (n : Nat) {s : S} {t : T}
    (h : Rel s t) : (calls f n s).1 = (calls g n t).1 ∧ Rel (calls f n s).2 (calls g n t).2 := by
  induction n generalizing s t with
  | zero => exact ⟨rfl, h⟩
  | succ n ih =>
    have hfirst := hstep s t h
    have hrest := ih hfirst.2
    exact ⟨congrArg₂ List.cons hfirst.1 hrest.1, hrest.2⟩

namespace Packets

variable {α β ε ι : Type u}

abbrev Cutter (α β ε : Type u) := List α → Except ε (Option (β × Nat))

structure Source (α ι : Type u) where
  buf : List α
  reads : List (Except ι (List α))

def atEnd (eof : ε) (buf : List α) : Except ε (Option β) :=
  if buf.isEmpty then .ok none else .error eof

/-- Looks and reads in turn, until a look settles it or nothing more comes.  An
empty read is the end of the stream. -/
def next (cut : Cutter α β ε) (eof : ε) (io : ι → ε) (buf : List α)
    (reads : List (Except ι (List α))) : Except ε (Option β) × Source α ι :=
  match cut buf with
  | .error e => (.error e, ⟨buf, reads⟩)
  | .ok (some (frame, n)) => (.ok (some frame), ⟨buf.drop n, reads⟩)
  | .ok none =>
    match reads with
    | [] => (atEnd eof buf, ⟨buf, []⟩)
    | .error e :: rest => (.error (io e), ⟨buf, rest⟩)
    | .ok [] :: rest => (atEnd eof buf, ⟨buf, rest⟩)
    | .ok (x :: xs) :: rest => next cut eof io (buf ++ x :: xs) rest

def Source.next (cut : Cutter α β ε) (eof : ε) (io : ι → ε) (src : Source α ι) :
    Except ε (Option β) × Source α ι :=
  Packets.next cut eof io src.buf src.reads

structure Stable (cut : Cutter α β ε) : Prop where
  error : ∀ {b e}, cut b = .error e → ∀ x, cut (b ++ x) = .error e
  frame : ∀ {b f n}, cut b = .ok (some (f, n)) →
    n ≤ b.length ∧ ∀ x, cut (b ++ x) = .ok (some (f, n))

def arriving : List (Except ι (List α)) → List α
  | [] => []
  | .ok c :: rest => c ++ arriving rest
  | .error _ :: rest => arriving rest

def Source.pending (src : Source α ι) : List α := src.buf ++ arriving src.reads

/-- What comes before the stream ends or a read fails, and the reads from there
on. -/
def leading : List (Except ι (List α)) → List α × List (Except ι (List α))
  | [] => ([], [])
  | .error e :: rest => ([], .error e :: rest)
  | .ok [] :: rest => ([], .ok [] :: rest)
  | .ok (x :: xs) :: rest => (x :: xs ++ (leading rest).1, (leading rest).2)

/-- The source after it was read for as long as something came. -/
def Source.settled (src : Source α ι) : Source α ι :=
  ⟨src.buf ++ (leading src.reads).1, (leading src.reads).2⟩

theorem leading_ok {chunks : List (List α)} (h : ∀ c ∈ chunks, c ≠ [])
    (rest : List (Except ι (List α))) :
    leading (chunks.map .ok ++ rest) = (chunks.flatten ++ (leading rest).1, (leading rest).2) := by
  induction chunks with
  | nil => rfl
  | cons c chunks ih =>
    rw [List.forall_mem_cons] at h
    obtain ⟨x, xs, rfl⟩ := List.exists_cons_of_ne_nil h.1
    rw [List.map_cons, List.cons_append, leading, ih h.2, List.flatten_cons, List.append_assoc]

theorem arriving_leading (reads : List (Except ι (List α))) :
    (leading reads).1 ++ arriving (leading reads).2 = arriving reads := by
  induction reads with
  | nil => rfl
  | cons r reads ih =>
    match r with
    | .error _ => rfl
    | .ok [] => rfl
    | .ok (x :: xs) => rw [leading, arriving, List.append_assoc, ih]

theorem leading_leading (reads : List (Except ι (List α))) :
    leading (leading reads).2 = ([], (leading reads).2) := by
  induction reads with
  | nil => rfl
  | cons r reads ih =>
    match r with
    | .error _ => rfl
    | .ok [] => rfl
    | .ok (x :: xs) => rw [leading, ih]

theorem Source.settled_settled (src : Source α ι) : src.settled.settled = src.settled := by
  rw [settled, settled, leading_leading, List.append_nil]

theorem Source.pending_settled (src : Source α ι) : src.settled.pending = src.pending := by
  rw [pending, pending, settled, List.append_assoc, arriving_leading]

theorem Source.pending_eq_of_settled {p q : Source α ι} (h : p.settled = q.settled) :
    p.pending = q.pending := by
  rw [← pending_settled, h, pending_settled]

variable {cut : Cutter α β ε} (eof : ε) (io : ι → ε)

theorem next_of_error {buf : List α} {e : ε} (h : cut buf = .error e)
    (reads : List (Except ι (List α))) : next cut eof io buf reads = (.error e, ⟨buf, reads⟩) := by
  rw [next.eq_def, h]

theorem next_of_frame {buf : List α} {f : β} {n : Nat} (h : cut buf = .ok (some (f, n)))
    (reads : List (Except ι (List α))) :
    next cut eof io buf reads = (.ok (some f), ⟨buf.drop n, reads⟩) := by
  rw [next.eq_def, h]

/-- It makes no difference to a call what has been read before it. -/
theorem next_settled (hcut : Stable cut) (buf : List α) (reads : List (Except ι (List α))) :
    (next cut eof io buf reads).1 =
        (next cut eof io (buf ++ (leading reads).1) (leading reads).2).1 ∧
      (next cut eof io buf reads).2.settled =
        (next cut eof io (buf ++ (leading reads).1) (leading reads).2).2.settled := by
  induction reads generalizing buf with
  | nil =>
    rw [leading, List.append_nil]
    exact ⟨rfl, rfl⟩
  | cons r reads ih =>
    match r with
    | .error _ =>
      rw [leading, List.append_nil]
      exact ⟨rfl, rfl⟩
    | .ok [] =>
      rw [leading, List.append_nil]
      exact ⟨rfl, rfl⟩
    | .ok (x :: xs) =>
      match hlook : cut buf with
      | .error e =>
        rw [next_of_error eof io hlook, next_of_error eof io (hcut.error hlook _)]
        exact ⟨rfl, (Source.settled_settled ⟨buf, .ok (x :: xs) :: reads⟩).symm⟩
      | .ok (some (f, n)) =>
        obtain ⟨hle, hmore⟩ := hcut.frame hlook
        rw [next_of_frame eof io hlook, next_of_frame eof io (hmore _),
          List.drop_append_of_le_length hle]
        exact ⟨rfl, (Source.settled_settled ⟨buf.drop n, .ok (x :: xs) :: reads⟩).symm⟩
      | .ok none =>
        rw [next.eq_def cut eof io buf, hlook, leading, ← List.append_assoc]
        exact ih (buf ++ x :: xs)

theorem calls_next_eq (hcut : Stable cut) (n : Nat) {p q : Source α ι}
    (h : p.settled = q.settled) :
    (calls (Source.next cut eof io) n p).1 = (calls (Source.next cut eof io) n q).1 ∧
      (calls (Source.next cut eof io) n p).2.settled =
        (calls (Source.next cut eof io) n q).2.settled := by
  have hstep : ∀ p q : Source α ι, p.settled = q.settled →
      (p.next cut eof io).1 = (q.next cut eof io).1 ∧
        (p.next cut eof io).2.settled = (q.next cut eof io).2.settled := by
    intro p q h
    have hp : (p.next cut eof io).1 = (p.settled.next cut eof io).1 ∧
        (p.next cut eof io).2.settled = (p.settled.next cut eof io).2.settled :=
      next_settled eof io hcut p.buf p.reads
    have hq : (q.next cut eof io).1 = (q.settled.next cut eof io).1 ∧
        (q.next cut eof io).2.settled = (q.settled.next cut eof io).2.settled :=
      next_settled eof io hcut q.buf q.reads
    rw [h] at hp
    exact ⟨hp.1.trans hq.1.symm, hp.2.trans hq.2.symm⟩
  exact calls_of_simulation hstep n h

theorem calls_next_flatMap {γ : Type u} {write : γ → List α} {frame : γ → β} {xs : List γ}
    (hcut : ∀ x ∈ xs, ∀ rest, cut (write x ++ rest) = .ok (some (frame x, (write x).length)))
    (hend : cut [] = .ok none) :
    calls (Source.next cut eof io) (xs.length + 1) ⟨xs.flatMap write, []⟩ =
      (xs.map (fun x => .ok (some (frame x))) ++ [.ok none], ⟨[], []⟩) := by
  induction xs with
  | nil =>
    simp only [calls, Source.next, next, List.flatMap_nil, hend, List.length_nil, List.map_nil,
      List.nil_append]
    rfl
  | cons x xs ih =>
    have hx := hcut x List.mem_cons_self (xs.flatMap write)
    have hrest := ih fun y hy => hcut y (List.mem_cons_of_mem x hy)
    have hnext : Source.next cut eof io ⟨write x ++ xs.flatMap write, []⟩ =
        (.ok (some (frame x)), ⟨xs.flatMap write, []⟩) := by
      rw [Source.next, next_of_frame eof io hx, List.drop_left]
    rw [List.length_cons, calls, List.flatMap_cons, hnext, hrest]
    rfl

end Packets

end IronDirectory.Base
