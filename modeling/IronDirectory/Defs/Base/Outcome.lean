import Mathlib.Data.List.Forall2

universe u v

namespace IronDirectory.Base.Outcome

variable {ε : Type u} {α β : Type v}

theorem bind_eq_ok {x : Except ε α} {f : α → Except ε β} {b : β} :
    (x >>= f) = .ok b ↔ ∃ a, x = .ok a ∧ f a = .ok b := by
  cases x with
  | error e => simp [bind, Except.bind]
  | ok a => simp [bind, Except.bind]

@[simp] theorem pure_eq_ok {a b : α} : (pure a : Except ε α) = .ok b ↔ a = b := by
  simp [pure, Except.pure]

@[simp] theorem map_eq_ok {x : Except ε α} {f : α → β} {b : β} :
    f <$> x = .ok b ↔ ∃ a, x = .ok a ∧ f a = b := by
  cases x with
  | error e => simp [Functor.map, Except.map]
  | ok a => simp [Functor.map, Except.map]

@[simp] theorem ok_bind (a : α) (f : α → Except ε β) : (Except.ok a >>= f) = f a := rfl

def require (o : Option α) (e : ε) : Except ε α :=
  match o with
  | some a => .ok a
  | none => .error e

@[simp] theorem require_eq_ok {o : Option α} {e : ε} {a : α} :
    require o e = .ok a ↔ o = some a := by
  cases o <;> simp [require]

@[simp] theorem require_some (a : α) (e : ε) : require (some a) e = .ok a := rfl

def ensure (p : Prop) [Decidable p] (e : ε) : Except ε PUnit :=
  if p then .ok () else .error e

@[simp] theorem ensure_eq_ok {p : Prop} [Decidable p] {e : ε} {x : PUnit} :
    ensure p e = .ok x ↔ p := by
  unfold ensure
  split <;> simp [*]

@[simp] theorem mapError_eq_ok {ε' : Type u} {x : Except ε α} {f : ε → ε'} {a : α} :
    x.mapError f = .ok a ↔ x = .ok a := by
  cases x <;> simp [Except.mapError]

@[simp] theorem toOption_eq_some {x : Except ε α} {a : α} : x.toOption = some a ↔ x = .ok a := by
  cases x <;> simp [Except.toOption]

theorem mapM_cons_eq_ok {f : α → Except ε β} {x : α} {xs : List α} {ys : List β} :
    (x :: xs).mapM f = .ok ys ↔ ∃ y zs, f x = .ok y ∧ xs.mapM f = .ok zs ∧ y :: zs = ys := by
  rw [List.mapM_cons, bind_eq_ok]
  simp

theorem mapM_eq_ok {f : α → Except ε β} {xs : List α} {ys : List β} :
    xs.mapM f = .ok ys ↔ List.Forall₂ (fun x y => f x = .ok y) xs ys := by
  induction xs generalizing ys with
  | nil => rw [List.mapM_nil, pure_eq_ok, List.forall₂_nil_left_iff, eq_comm]
  | cons x xs ih =>
    rw [mapM_cons_eq_ok]
    cases ys with
    | nil => simp
    | cons y ys =>
      rw [List.forall₂_cons, ← ih]
      simp

theorem exists_mapM_eq_ok {f : α → Except ε β} {xs : List α}
    (h : ∀ x ∈ xs, ∃ y, f x = .ok y) : ∃ ys, xs.mapM f = .ok ys := by
  induction xs with
  | nil => exact ⟨[], rfl⟩
  | cons x xs ih =>
    obtain ⟨y, hy⟩ := h x List.mem_cons_self
    obtain ⟨ys, hys⟩ := ih fun x' hx' => h x' (List.mem_cons_of_mem _ hx')
    exact ⟨y :: ys, by simp [List.mapM_cons, hy, hys]⟩

theorem mem_of_mapM_eq_ok {f : α → Except ε β} {xs : List α} {ys : List β}
    (h : xs.mapM f = .ok ys) (y : β) : y ∈ ys ↔ ∃ x ∈ xs, f x = .ok y := by
  rw [mapM_eq_ok] at h
  induction h with
  | nil => simp
  | cons hxy _ ih => simp [ih, hxy, eq_comm]

theorem exists_of_mapM_eq_ok {f : α → Except ε β} {xs : List α} {ys : List β}
    (h : xs.mapM f = .ok ys) {x : α} (hx : x ∈ xs) : ∃ y ∈ ys, f x = .ok y := by
  rw [mapM_eq_ok] at h
  induction h with
  | nil => cases hx
  | @cons x' y xs ys hxy _ ih =>
    cases List.mem_cons.mp hx with
    | inl h => exact ⟨y, List.mem_cons_self, h ▸ hxy⟩
    | inr h =>
      obtain ⟨y', hy', hf⟩ := ih h
      exact ⟨y', List.mem_cons_of_mem _ hy', hf⟩

theorem foldlM_invariant {P : β → Prop} {f : β → α → Except ε β} {xs : List α} {b b' : β}
    (hstep : ∀ b x b', x ∈ xs → P b → f b x = .ok b' → P b') (hb : P b)
    (h : xs.foldlM f b = .ok b') : P b' := by
  induction xs generalizing b with
  | nil =>
    rw [List.foldlM_nil, pure_eq_ok] at h
    exact h ▸ hb
  | cons x xs ih =>
    rw [List.foldlM_cons, bind_eq_ok] at h
    obtain ⟨b₁, h₁, h⟩ := h
    exact ih (fun b y b' hy => hstep b y b' (List.mem_cons_of_mem _ hy))
      (hstep b x b₁ List.mem_cons_self hb h₁) h

def Errors (P : ε → Prop) (x : Except ε α) : Prop := ∀ e, x = .error e → P e

section Errors

variable {P : ε → Prop}

theorem errors_ok (a : α) : Errors P (.ok a : Except ε α) := nofun

theorem errors_pure (a : α) : Errors P (pure a : Except ε α) := nofun

theorem errors_error {e : ε} (h : P e) : Errors P (.error e : Except ε α) := by
  intro e' he
  cases he
  exact h

theorem errors_bind_of_ok {x : Except ε α} {f : α → Except ε β} (hx : Errors P x)
    (hf : ∀ a, x = .ok a → Errors P (f a)) : Errors P (x >>= f) := by
  intro e he
  cases x with
  | error e' =>
    cases he
    exact hx e rfl
  | ok a => exact hf a rfl e he

theorem errors_bind {x : Except ε α} {f : α → Except ε β} (hx : Errors P x)
    (hf : ∀ a, Errors P (f a)) : Errors P (x >>= f) :=
  errors_bind_of_ok hx fun a _ => hf a

theorem errors_mapM {f : α → Except ε β} {xs : List α} (h : ∀ x ∈ xs, Errors P (f x)) :
    Errors P (xs.mapM f) := by
  induction xs with
  | nil => exact errors_pure _
  | cons x xs ih =>
    rw [List.mapM_cons]
    refine errors_bind (h x List.mem_cons_self) fun _ => ?_
    refine errors_bind (ih fun y hy => h y (List.mem_cons_of_mem _ hy)) fun _ => ?_
    exact errors_pure _

theorem Errors.mapError {ε' : Type u} {Q : ε' → Prop} {x : Except ε' α} {f : ε' → ε}
    (hx : Errors Q x) (h : ∀ e, Q e → P (f e)) : Errors P (x.mapError f) := by
  intro e he
  cases x with
  | error e' =>
    cases he
    exact h e' (hx e' rfl)
  | ok a => cases he

theorem errors_mapError {ε' : Type u} {x : Except ε' α} {f : ε' → ε} (h : ∀ e, P (f e)) :
    Errors P (x.mapError f) := by
  have hx : Errors (fun _ : ε' => True) x := fun _ _ => trivial
  exact hx.mapError fun e _ => h e

theorem errors_require {o : Option α} {e : ε} (h : P e) : Errors P (require o e) := by
  cases o with
  | none => exact errors_error h
  | some a => exact errors_ok a

theorem errors_ensure {p : Prop} [Decidable p] {e : ε} (h : P e) : Errors P (ensure p e) := by
  unfold ensure
  split
  · exact errors_ok _
  · exact errors_error h

end Errors

theorem pairwise_of_mapM_eq_ok {f : α → Except ε β} {xs : List α} {ys : List β}
    {S : α → α → Prop} {T : β → β → Prop} (h : xs.mapM f = .ok ys) (hS : xs.Pairwise S)
    (hT : ∀ x ∈ xs, ∀ x' ∈ xs, ∀ y y', S x x' → f x = .ok y → f x' = .ok y' → T y y') :
    ys.Pairwise T := by
  induction xs generalizing ys with
  | nil =>
    rw [mapM_eq_ok, List.forall₂_nil_left_iff] at h
    rw [h]
    exact .nil
  | cons x xs ih =>
    obtain ⟨y, zs, hy, hzs, rfl⟩ := mapM_cons_eq_ok.mp h
    obtain ⟨hx, hxs⟩ := List.pairwise_cons.mp hS
    refine List.pairwise_cons.mpr ⟨?_, ih hzs hxs ?_⟩
    · intro z hz
      obtain ⟨x', hx', hz'⟩ := (mem_of_mapM_eq_ok hzs z).mp hz
      exact hT x List.mem_cons_self x' (List.mem_cons_of_mem _ hx') y z (hx x' hx') hy hz'
    · intro a ha b hb
      exact hT a (List.mem_cons_of_mem _ ha) b (List.mem_cons_of_mem _ hb)

inductive Agree (R : α → β → Prop) : Except ε α → Except ε β → Prop
  | ok {a : α} {b : β} : R a b → Agree R (.ok a) (.ok b)
  | error (e : ε) : Agree R (.error e) (.error e)

section Agree

variable {γ δ : Type v} {R : α → β → Prop} {S : γ → δ → Prop}

theorem Agree.bind {x : Except ε α} {y : Except ε β} {f : α → Except ε γ} {g : β → Except ε δ}
    (h : Agree R x y) (hfg : ∀ a b, R a b → Agree S (f a) (g b)) : Agree S (x >>= f) (y >>= g) := by
  cases h with
  | ok hab => exact hfg _ _ hab
  | error e => exact .error e

theorem Agree.mapM {f : α → Except ε γ} {g : β → Except ε δ} {xs : List α} {ys : List β}
    (h : List.Forall₂ R xs ys) (hfg : ∀ a b, R a b → Agree S (f a) (g b)) :
    Agree (List.Forall₂ S) (xs.mapM f) (ys.mapM g) := by
  induction h with
  | nil => exact .ok .nil
  | cons hab _ ih =>
    rw [List.mapM_cons, List.mapM_cons]
    exact (hfg _ _ hab).bind fun _ _ hS => ih.bind fun _ _ hSs => .ok (.cons hS hSs)

end Agree

end IronDirectory.Base.Outcome
