import IronDirectory.Defs.Base.Lists
import IronDirectory.Defs.Base.Run

/-! Programs that ask a shared service one request at a time.  They run alone or
interleaved, and a relation that every step keeps carries what each of them has
learnt through the steps of the others. -/

namespace IronDirectory.Base

inductive Prog (Q : Type) (A : Q → Type) (α : Type)
  | done (a : α)
  | ask (q : Q) (k : A q → Prog Q A α)

namespace Prog

variable {Q : Type} {A : Q → Type} {S ε ε' α β : Type}

def bind : Prog Q A α → (α → Prog Q A β) → Prog Q A β
  | .done a, f => f a
  | .ask q k, f => .ask q fun x => (k x).bind f

instance monad : Monad (Prog Q A) where
  pure := .done
  bind := bind

def request (q : Q) : Prog Q A (A q) := .ask q .done

def mapError (f : ε → ε') (p : Prog Q A (Except ε α)) : Prog Q A (Except ε' α) :=
  p.bind fun r => .done (r.mapError f)

def eval (answer : S → (q : Q) → A q × S) : Prog Q A α → S → α × S
  | .done a, s => (a, s)
  | .ask q k, s => (k (answer s q).1).eval answer (answer s q).2

def replies (answer : S → (q : Q) → A q × S) : Prog Q A α → S → List (Sigma A)
  | .done _, _ => []
  | .ask q k, s => ⟨q, (answer s q).1⟩ :: (k (answer s q).1).replies answer (answer s q).2

@[simp] theorem eval_done (answer : S → (q : Q) → A q × S) (a : α) (s : S) :
    (done a : Prog Q A α).eval answer s = (a, s) := rfl

@[simp] theorem eval_request (answer : S → (q : Q) → A q × S) (q : Q) (s : S) :
    (request q : Prog Q A (A q)).eval answer s = answer s q := rfl

theorem eval_bind (answer : S → (q : Q) → A q × S) (p : Prog Q A α) (f : α → Prog Q A β) (s : S) :
    (p.bind f).eval answer s = (f (p.eval answer s).1).eval answer (p.eval answer s).2 := by
  induction p generalizing s with
  | done a => rfl
  | ask q k ih => exact ih _ _

theorem eval_bind_except (answer : S → (q : Q) → A q × S) (p : ExceptT ε (Prog Q A) α)
    (f : α → ExceptT ε (Prog Q A) β) (s : S) :
    (p >>= f).run.eval answer s =
      match p.run.eval answer s with
      | (.ok a, t) => (f a).run.eval answer t
      | (.error e, t) => (.error e, t) := by
  have hbind : (p >>= f).run = p.run.bind (ExceptT.bindCont f) := rfl
  rw [hbind, eval_bind]
  cases h : p.run.eval answer s with
  | mk r t =>
    cases r with
    | error e => rfl
    | ok a => rfl

theorem eval_mapError (answer : S → (q : Q) → A q × S) (g : ε → ε') (p : Prog Q A (Except ε α))
    (s : S) : (p.mapError g).eval answer s =
      ((p.eval answer s).1.mapError g, (p.eval answer s).2) := by
  rw [mapError, eval_bind]
  rfl

def Asks (P : Q → Prop) : Prog Q A α → Prop
  | .done _ => True
  | .ask q k => P q ∧ ∀ x, (k x).Asks P

theorem Asks.bind {P : Q → Prop} {p : Prog Q A α} {f : α → Prog Q A β} (hp : p.Asks P)
    (hf : ∀ a, (f a).Asks P) : (p.bind f).Asks P := by
  induction p with
  | done a => exact hf a
  | ask q k ih => exact ⟨hp.1, fun x => ih x (hp.2 x)⟩

theorem Asks.bind_except {P : Q → Prop} {p : ExceptT ε (Prog Q A) α}
    {f : α → ExceptT ε (Prog Q A) β} (hp : p.run.Asks P) (hf : ∀ a, (f a).run.Asks P) :
    (p >>= f).run.Asks P := by
  refine Asks.bind hp fun r => ?_
  cases r with
  | error e => trivial
  | ok a => exact hf a

theorem Asks.mapError {P : Q → Prop} {g : ε → ε'} {p : Prog Q A (Except ε α)} (hp : p.Asks P) :
    (p.mapError g).Asks P :=
  hp.bind fun _ => trivial

variable (serve : S → (q : Q) → A q → S → Prop)

inductive Exec : S → Prog Q A α → List (Sigma A) → S → α → Prop
  | done (s : S) (a : α) : Exec s (.done a) [] s a
  | ask {s t u : S} {q : Q} {x : A q} {k : A q → Prog Q A α} {answers : List (Sigma A)} {a : α} :
    serve s q x t → Exec t (k x) answers u a → Exec s (.ask q k) (⟨q, x⟩ :: answers) u a

section Exec

variable {serve} {s t : S} {answers : List (Sigma A)}

theorem exec_done {a b : α} :
    Exec serve s (.done a) answers t b ↔ answers = [] ∧ t = s ∧ b = a := by
  constructor
  · intro h
    cases h
    exact ⟨rfl, rfl, rfl⟩
  · rintro ⟨rfl, rfl, rfl⟩
    exact .done _ _

theorem exec_ask {q : Q} {k : A q → Prog Q A α} {a : α} :
    Exec serve s (.ask q k) answers t a ↔
      ∃ x u rest, answers = ⟨q, x⟩ :: rest ∧ serve s q x u ∧ Exec serve u (k x) rest t a := by
  constructor
  · intro h
    cases h with
    | ask hserve hrest => exact ⟨_, _, _, rfl, hserve, hrest⟩
  · rintro ⟨x, u, rest, rfl, hserve, hrest⟩
    exact .ask hserve hrest

theorem exec_bind {p : Prog Q A α} {f : α → Prog Q A β} {b : β} :
    Exec serve s (p.bind f) answers t b ↔ ∃ first u a rest, answers = first ++ rest ∧
      Exec serve s p first u a ∧ Exec serve u (f a) rest t b := by
  induction p generalizing s answers with
  | done a =>
    simp only [bind, exec_done]
    constructor
    · intro h
      exact ⟨[], s, a, answers, rfl, ⟨rfl, rfl, rfl⟩, h⟩
    · rintro ⟨_, _, _, _, rfl, ⟨rfl, rfl, rfl⟩, h⟩
      exact h
  | ask q k ih =>
    simp only [bind, exec_ask, ih]
    constructor
    · rintro ⟨x, u, _, rfl, hserve, first, v, a, rest, rfl, hp, hf⟩
      exact ⟨⟨q, x⟩ :: first, v, a, rest, rfl, ⟨x, u, first, rfl, hserve, hp⟩, hf⟩
    · rintro ⟨_, v, a, rest, rfl, ⟨x, u, first, rfl, hserve, hp⟩, hf⟩
      exact ⟨x, u, first ++ rest, rfl, hserve, first, v, a, rest, rfl, hp, hf⟩

theorem exec_bind_ok {p : ExceptT ε (Prog Q A) α} {f : α → ExceptT ε (Prog Q A) β} {b : β} :
    Exec serve s (p >>= f).run answers t (.ok b) ↔ ∃ first u a rest, answers = first ++ rest ∧
      Exec serve s p.run first u (.ok a) ∧ Exec serve u (f a).run rest t (.ok b) := by
  have hbind : (p >>= f).run = p.run.bind (ExceptT.bindCont f) := rfl
  rw [hbind, exec_bind]
  constructor
  · rintro ⟨first, u, r, rest, rfl, hp, hf⟩
    cases r with
    | error e =>
      obtain ⟨-, -, h⟩ := exec_done.mp hf
      cases h
    | ok a => exact ⟨first, u, a, rest, rfl, hp, hf⟩
  · rintro ⟨first, u, a, rest, rfl, hp, hf⟩
    exact ⟨first, u, .ok a, rest, rfl, hp, hf⟩

theorem exec_bind_except {p : ExceptT ε (Prog Q A) α} {f : α → ExceptT ε (Prog Q A) β}
    {r : Except ε β} (h : Exec serve s (p >>= f).run answers t r) :
    (∃ e, r = .error e ∧ Exec serve s p.run answers t (.error e)) ∨
      ∃ first u a rest, answers = first ++ rest ∧ Exec serve s p.run first u (.ok a) ∧
        Exec serve u (f a).run rest t r := by
  have hbind : (p >>= f).run = p.run.bind (ExceptT.bindCont f) := rfl
  rw [hbind, exec_bind] at h
  obtain ⟨first, u, x, rest, rfl, hp, hf⟩ := h
  cases x with
  | error e =>
    obtain ⟨rfl, rfl, rfl⟩ := exec_done.mp hf
    rw [List.append_nil]
    exact .inl ⟨e, rfl, hp⟩
  | ok a => exact .inr ⟨first, u, a, rest, rfl, hp, hf⟩

theorem exec_mapError {g : ε → ε'} {p : Prog Q A (Except ε α)} {r : Except ε' α}
    (h : Exec serve s (p.mapError g) answers t r) :
    ∃ x, r = x.mapError g ∧ Exec serve s p answers t x := by
  rw [mapError, exec_bind] at h
  obtain ⟨first, u, x, rest, rfl, hp, hf⟩ := h
  obtain ⟨rfl, rfl, rfl⟩ := exec_done.mp hf
  rw [List.append_nil]
  exact ⟨x, rfl, hp⟩

theorem exec_mapError_ok {g : ε → ε'} {p : Prog Q A (Except ε α)} {a : α} :
    Exec serve s (p.mapError g) answers t (.ok a) ↔ Exec serve s p answers t (.ok a) := by
  rw [mapError, exec_bind]
  constructor
  · rintro ⟨first, u, r, rest, rfl, hp, hf⟩
    obtain ⟨rfl, rfl, h⟩ := exec_done.mp hf
    cases r with
    | error e => cases h
    | ok b =>
      cases h
      rwa [List.append_nil]
  · intro h
    exact ⟨answers, t, .ok a, [], (List.append_nil _).symm, h, .done _ _⟩

theorem exec_eval {S' : Type} {answer : S' → (q : Q) → A q × S'} (view : S' → S)
    (hanswer : ∀ s q, serve (view s) q (answer s q).1 (view (answer s q).2)) (p : Prog Q A α)
    (s : S') :
    Exec serve (view s) p (p.replies answer s) (view (p.eval answer s).2) (p.eval answer s).1 := by
  induction p generalizing s with
  | done a => exact .done (view s) a
  | ask q k ih => exact .ask (hanswer s q) (ih (answer s q).1 (answer s q).2)

end Exec

/-- Whatever changes the relation allows before each request and before the
end, the program's own steps are such changes too and its result meets the
postcondition. -/
def Safe (R : S → S → Prop) (Post : S → α → Prop) : Prog Q A α → S → Prop
  | .done a, s => ∀ t, R s t → Post t a
  | .ask q k, s => ∀ t, R s t → ∀ x u, serve t q x u → R t u ∧ Safe R Post (k x) u

section Safe

variable {serve} {R : S → S → Prop} {Post : S → α → Prop} {Post' : S → β → Prop} {s t : S}

def WhenOk (P : S → α → Prop) (s : S) (r : Except ε α) : Prop := ∀ a, r = .ok a → P s a

theorem safe_mapError {g : ε → ε'} {p : Prog Q A (Except ε α)}
    (h : Safe serve R (WhenOk Post) p s) : Safe serve R (WhenOk Post) (p.mapError g) s := by
  induction p generalizing s with
  | done r =>
    intro t hst a ha
    cases r with
    | error e => cases ha
    | ok b =>
      obtain rfl : b = a := Except.ok.inj ha
      exact h t hst b rfl
  | ask q k ih =>
    intro t hst x u hserve
    obtain ⟨htu, hk⟩ := h t hst x u hserve
    exact ⟨htu, ih x hk⟩

variable [IsTrans S R]

theorem Safe.of_related {p : Prog Q A α} (h : Safe serve R Post p s)
    (hst : R s t) : Safe serve R Post p t := by
  cases p with
  | done a => exact fun u hu => h u (trans_of R hst hu)
  | ask q k => exact fun u hu => h u (trans_of R hst hu)

variable [Std.Refl R]

theorem safe_bind {p : Prog Q A α}
    {f : α → Prog Q A β} (hp : Safe serve R Post p s)
    (hf : ∀ t a, R s t → Post t a → Safe serve R Post' (f a) t) :
    Safe serve R Post' (p.bind f) s := by
  induction p generalizing s with
  | done a => exact hf s a (refl_of R s) (hp s (refl_of R s))
  | ask q k ih =>
    intro t hst x u hserve
    obtain ⟨htu, hk⟩ := hp t hst x u hserve
    exact ⟨htu, ih x hk fun v a huv => hf v a (trans_of R (trans_of R hst htu) huv)⟩

theorem safe_bind_ok
    {p : ExceptT ε (Prog Q A) α} {f : α → ExceptT ε (Prog Q A) β}
    (hp : Safe serve R (WhenOk Post) p.run s)
    (hf : ∀ t a, R s t → Post t a → Safe serve R (WhenOk Post') (f a).run t) :
    Safe serve R (WhenOk Post') (p >>= f).run s := by
  refine safe_bind hp fun t r hst hpost => ?_
  cases r with
  | error e => exact fun _ _ _ => nofun
  | ok a => exact hf t a hst (hpost a rfl)

end Safe

structure Pool (S : Type) (Q : Type) (A : Q → Type) (α : Type) where
  state : S
  progs : List (Prog Q A α)

inductive Move (Q : Type) (A : Q → Type) (α : Type)
  | start (p : Prog Q A α)
  | turn (i : Nat)

/-- A program that is never given another turn has crashed. -/
inductive Pool.Step : Pool S Q A α → Move Q A α → Pool S Q A α → Prop
  | start {s : S} {ps : List (Prog Q A α)} (p : Prog Q A α) :
    Step ⟨s, ps⟩ (.start p) ⟨s, ps ++ [p]⟩
  | turn {s t : S} {ps : List (Prog Q A α)} {i : Nat} {q : Q} {x : A q} {k : A q → Prog Q A α} :
    ps[i]? = some (.ask q k) → serve s q x t → Step ⟨s, ps⟩ (.turn i) ⟨t, ps.set i (k x)⟩

/-- The programs are given these turns, and every request is answered. -/
def Pool.served (answer : S → (q : Q) → A q × S) (x : Pool S Q A α) : List Nat → Pool S Q A α
  | [] => x
  | i :: turns =>
    match x.progs[i]? with
    | some (.ask q k) =>
      served answer ⟨(answer x.state q).2, x.progs.set i (k (answer x.state q).1)⟩ turns
    | _ => served answer x turns

theorem Pool.exists_run_served {serve : S → (q : Q) → A q → S → Prop}
    {answer : S → (q : Q) → A q × S}
    (hanswer : ∀ s q, serve s q (answer s q).1 (answer s q).2) (x : Pool S Q A α)
    (turns : List Nat) :
    ∃ steps, Run (Step serve) x steps (x.served answer turns) ∧ ∀ y p, (y, .start p) ∉ steps := by
  induction turns generalizing x with
  | nil => exact ⟨[], .nil x, fun _ _ => List.not_mem_nil⟩
  | cons i turns ih =>
    unfold served
    split
    case h_1 q k hi =>
      obtain ⟨steps, hrun, hturns⟩ :=
        ih ⟨(answer x.state q).2, x.progs.set i (k (answer x.state q).1)⟩
      refine ⟨(x, .turn i) :: steps, .cons (.turn hi (hanswer x.state q)) hrun, fun y p hmem => ?_⟩
      cases List.mem_cons.mp hmem with
      | inl h => cases h
      | inr h => exact hturns y p h
    case h_2 => exact ih x

section Pool

variable {serve} {R : S → S → Prop} [Std.Refl R] [IsTrans S R] {Post : Nat → S → α → Prop}

def Pool.Sound (serve : S → (q : Q) → A q → S → Prop) (R : S → S → Prop)
    (Post : Nat → S → α → Prop) (x : Pool S Q A α) : Prop :=
  ∀ i p, x.progs[i]? = some p → Safe serve R (Post i) p x.state

theorem Pool.Step.sound {x y : Pool S Q A α}
    {m : Move Q A α} (hstep : Step serve x m y) (h : x.Sound serve R Post)
    (hstart : ∀ p, m = .start p → Safe serve R (Post x.progs.length) p x.state) :
    R x.state y.state ∧ y.Sound serve R Post := by
  cases hstep with
  | @start s ps p =>
    refine ⟨refl_of R _, fun i p' hp' => ?_⟩
    cases Lists.getElem?_concat_cases hp' with
    | inl hnew =>
      obtain ⟨rfl, rfl⟩ := hnew
      exact hstart p' rfl
    | inr hold => exact h i p' hold
  | @turn s t ps i q a k hi hserve =>
    obtain ⟨hst, hk⟩ := h i _ hi s (refl_of R s) a t hserve
    refine ⟨hst, fun j p' hp' => ?_⟩
    cases Lists.getElem?_set_cases hp' with
    | inl hset =>
      obtain ⟨rfl, rfl⟩ := hset
      exact hk
    | inr hold => exact (h j p' hold.2).of_related hst

/-- In a run whose programs are all safe to start, the service only changes as
the relation allows and every program stays safe. -/
theorem Pool.sound_of_run {Inv : S → Prop}
    (hinv : ∀ s t, Inv s → R s t → Inv t) {x y : Pool S Q A α}
    {steps : List (Pool S Q A α × Move Q A α)}
    (hrun : Run (Step serve) x steps y) (hx : Inv x.state) (h : x.Sound serve R Post)
    (hstart : ∀ z p, (z, Move.start p) ∈ steps → Inv z.state →
      Safe serve R (Post z.progs.length) p z.state) :
    R x.state y.state ∧ Inv y.state ∧ y.Sound serve R Post := by
  induction hrun with
  | nil x => exact ⟨refl_of R _, hx, h⟩
  | @cons x z y m steps hstep hrest ih =>
    obtain ⟨hxz, hz⟩ := hstep.sound h fun p hp =>
      hstart x p (by rw [hp]; exact List.mem_cons_self) hx
    obtain ⟨hzy, hy⟩ := ih (hinv _ _ hx hxz) hz fun w p hw =>
      hstart w p (List.mem_cons_of_mem _ hw)
    exact ⟨trans_of R hxz hzy, hy⟩

end Pool

end Prog

end IronDirectory.Base
