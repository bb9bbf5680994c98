import PaaRuntime.Lib.Checks

/-!
# Programs with state and exceptions

`Prog ε σ α` is a program over a state `σ` that returns an `α` or raises an `ε`; the state
reached before a raise survives it, so that a handler sees it. Besides the monad the module has
the inversion lemmas of sequencing and three properties closed under the program constructors:

1. `Keeps f x`: running `x` leaves the component `f` of the state alone.
2. `RaisesOnly E x`: every exception `x` raises satisfies `E`.
3. `Respects R x`: from `R`-related states, `x` has equal outcomes and ends in related states;
   `Agrees R x y`: so do the two programs.
-/

namespace PaaRuntime

/-- Programs over the state `σ` that may raise an `ε`. -/
def Prog (ε σ α : Type) : Type := σ → Except ε α × σ

namespace Prog

variable {ε σ α β γ : Type}

instance : Monad (Prog ε σ) where
  pure a := fun s => (.ok a, s)
  bind x f := fun s =>
    match x s with
    | (.ok a, s') => f a s'
    | (.error e, s') => (.error e, s')

instance : MonadExceptOf ε (Prog ε σ) where
  throw e := fun s => (.error e, s)
  tryCatch x h := fun s =>
    match x s with
    | (.ok a, s') => (.ok a, s')
    | (.error e, s') => h e s'

/-- A pure computation that may raise, as a program. -/
def lift (r : Except ε α) : Prog ε σ α := fun s => (r, s)

instance : MonadLift (Except ε) (Prog ε σ) := ⟨lift⟩

/-- Read a component of the state. -/
def gets (f : σ → α) : Prog ε σ α := fun s => (.ok (f s), s)

/-- Change the state. -/
def modify (f : σ → σ) : Prog ε σ Unit := fun s => (.ok (), f s)

/-- Run `x` for each element in turn; the first raise ends the loop. -/
def forEach (f : α → Prog ε σ Unit) : List α → Prog ε σ Unit
  | [] => pure ()
  | a :: l => do f a; forEach f l

/-- `try x finally fin`: `fin` runs however `x` ends, and what `fin` raises replaces the outcome. -/
def ensuring (x : Prog ε σ α) (fin : Prog ε σ Unit) : Prog ε σ α := fun s =>
  match fin (x s).2 with
  | (.ok _, s') => ((x s).1, s')
  | (.error e, s') => (.error e, s')

/-! ## Running -/

@[simp] theorem pure_run (a : α) (s : σ) : (pure a : Prog ε σ α) s = (.ok a, s) := rfl

@[simp] theorem throw_run (e : ε) (s : σ) : (throw e : Prog ε σ α) s = (.error e, s) := rfl

@[simp] theorem lift_run (r : Except ε α) (s : σ) : (lift r : Prog ε σ α) s = (r, s) := rfl

@[simp] theorem monadLift_run (r : Except ε α) (s : σ) :
    (liftM r : Prog ε σ α) s = (r, s) := rfl

@[simp] theorem gets_run (f : σ → α) (s : σ) : (gets f : Prog ε σ α) s = (.ok (f s), s) := rfl

@[simp] theorem modify_run (f : σ → σ) (s : σ) : (modify f : Prog ε σ Unit) s = (.ok (), f s) := rfl

/-- Reading the state goes on with what is read. -/
@[simp] theorem gets_bind_run (f : σ → α) (g : α → Prog ε σ β) (s : σ) :
    (gets f >>= g) s = g (f s) s := rfl

theorem bind_run (x : Prog ε σ α) (f : α → Prog ε σ β) (s : σ) :
    (x >>= f) s = match x s with
      | (.ok a, s') => f a s'
      | (.error e, s') => (.error e, s') := rfl

/-- Sequences associate. -/
theorem bind_bind (x : Prog ε σ α) (f : α → Prog ε σ β) (g : β → Prog ε σ γ) :
    (x >>= f >>= g) = x >>= fun a => f a >>= g := by
  funext s
  show ((x >>= f) >>= g) s = (x >>= fun a => f a >>= g) s
  rw [bind_run, bind_run, bind_run]
  rcases x s with ⟨_ | a, s'⟩
  · rfl
  · rfl

theorem tryCatch_run (x : Prog ε σ α) (h : ε → Prog ε σ α) (s : σ) :
    (tryCatch x h : Prog ε σ α) s = match x s with
      | (.ok a, s') => (.ok a, s')
      | (.error e, s') => h e s' := rfl

theorem map_run (f : α → β) (x : Prog ε σ α) (s : σ) :
    (f <$> x) s = match x s with
      | (.ok a, s') => (.ok (f a), s')
      | (.error e, s') => (.error e, s') := rfl

@[simp] theorem forEach_nil (f : α → Prog ε σ Unit) : forEach f [] = pure () := rfl

@[simp] theorem forEach_cons (f : α → Prog ε σ Unit) (a : α) (l : List α) :
    forEach f (a :: l) = (f a >>= fun _ => forEach f l) := rfl

/-! ## Inversion -/

section Inversion

variable {x : Prog ε σ α} {f : α → Prog ε σ β} {s s' : σ}

/-- A sequence returns exactly when both parts do. -/
theorem bind_ok {b : β} :
    (x >>= f) s = (.ok b, s') ↔ ∃ a s₁, x s = (.ok a, s₁) ∧ f a s₁ = (.ok b, s') := by
  rw [bind_run]
  rcases h : x s with ⟨_ | a, s₁⟩ <;> simp

/-- A sequence raises exactly when its first part does, or returns and the second one raises. -/
theorem bind_error {e : ε} :
    (x >>= f) s = (.error e, s') ↔
      x s = (.error e, s') ∨ ∃ a s₁, x s = (.ok a, s₁) ∧ f a s₁ = (.error e, s') := by
  rw [bind_run]
  rcases h : x s with ⟨_ | a, s₁⟩ <;> simp

theorem liftM_ok {r : Except ε α} {a : α} :
    (liftM r : Prog ε σ α) s = (.ok a, s') ↔ r = .ok a ∧ s' = s := by
  simp [Prod.ext_iff, eq_comm]

theorem gets_ok {f : σ → α} {a : α} :
    (gets f : Prog ε σ α) s = (.ok a, s') ↔ f s = a ∧ s' = s := by
  simp [Prod.ext_iff, eq_comm]

theorem modify_ok {f : σ → σ} {u : Unit} :
    (modify f : Prog ε σ Unit) s = (.ok u, s') ↔ s' = f s := by
  simp [Prod.ext_iff, eq_comm]

theorem throw_ok {e : ε} {a : α} : ¬ (throw e : Prog ε σ α) s = (.ok a, s') := by simp

theorem pure_ok {a b : α} : (pure a : Prog ε σ α) s = (.ok b, s') ↔ a = b ∧ s' = s := by
  simp [Prod.ext_iff, eq_comm]

end Inversion

/-! ## Frames -/

/-- Running `x` leaves the component `f` of the state alone, however it ends. -/
def Keeps (f : σ → γ) (x : Prog ε σ α) : Prop := ∀ s, f (x s).2 = f s

namespace Keeps

variable {k : σ → γ}

theorem pure (a : α) : Keeps k (Pure.pure a : Prog ε σ α) := fun _ => rfl

theorem throw (e : ε) : Keeps k (MonadExcept.throw e : Prog ε σ α) := fun _ => rfl

theorem lift (r : Except ε α) : Keeps k (Prog.lift r : Prog ε σ α) := fun _ => rfl

theorem gets (f : σ → α) : Keeps k (Prog.gets f : Prog ε σ α) := fun _ => rfl

theorem bind {x : Prog ε σ α} {f : α → Prog ε σ β} (hx : Keeps k x) (hf : ∀ a, Keeps k (f a)) :
    Keeps k (x >>= f) := by
  intro s
  have h := hx s
  rw [bind_run]
  rcases hs : x s with ⟨_ | a, s₁⟩ <;> rw [hs] at h
  · exact h
  · exact (hf a s₁).trans h

theorem tryCatch {x : Prog ε σ α} {h : ε → Prog ε σ α} (hx : Keeps k x) (hh : ∀ e, Keeps k (h e)) :
    Keeps k (MonadExcept.tryCatch x h) := by
  intro s
  have h' := hx s
  rw [tryCatch_run]
  rcases hs : x s with ⟨e | _, s₁⟩ <;> rw [hs] at h'
  · exact (hh e s₁).trans h'
  · exact h'

theorem ensuring {x : Prog ε σ α} {fin : Prog ε σ Unit} (hx : Keeps k x) (hfin : Keeps k fin) :
    Keeps k (x.ensuring fin) := by
  intro s
  have h := hfin (x s).2
  unfold Prog.ensuring
  rcases hf : fin (x s).2 with ⟨e | _, s'⟩ <;> rw [hf] at h <;> exact h.trans (hx s)

theorem forEach {f : α → Prog ε σ Unit} (hf : ∀ a, Keeps k (f a)) :
    ∀ l : List α, Keeps k (Prog.forEach f l)
  | [] => Keeps.pure ()
  | a :: l => (hf a).bind fun _ => forEach hf l

theorem eq_of_run {x : Prog ε σ α} (hx : Keeps k x) {s s' : σ} {r : Except ε α}
    (h : x s = (r, s')) : k s' = k s := by
  have := hx s
  rwa [h] at this

/-- A sequence that returns goes on from a state with the same component. -/
theorem bind_ok {x : Prog ε σ α} {f : α → Prog ε σ β} (hx : Keeps k x) {s s' : σ} {b : β}
    (h : (x >>= f) s = (.ok b, s')) :
    ∃ a s₁, x s = (.ok a, s₁) ∧ k s₁ = k s ∧ f a s₁ = (.ok b, s') := by
  obtain ⟨a, s₁, h₁, h₂⟩ := Prog.bind_ok.1 h
  exact ⟨a, s₁, h₁, hx.eq_of_run h₁, h₂⟩

end Keeps

/-- Where `x` raises, the component `f` of the state is as it was. -/
def RaisesClean (f : σ → γ) (x : Prog ε σ α) : Prop :=
  ∀ s e s', x s = (.error e, s') → f s' = f s

namespace RaisesClean

variable {k : σ → γ}

theorem of_keeps {x : Prog ε σ α} (hx : Keeps k x) : RaisesClean k x :=
  fun _ _ _ h => hx.eq_of_run h

/-- Parts that leave the component alone may come before one that raises clean. -/
theorem bind {x : Prog ε σ α} {f : α → Prog ε σ β} (hx : Keeps k x)
    (hf : ∀ a, RaisesClean k (f a)) : RaisesClean k (x >>= f) := by
  intro s e s' h
  rcases bind_error.1 h with h | ⟨a, s₁, h₁, h₂⟩
  · exact hx.eq_of_run h
  · exact (hf a s₁ e s' h₂).trans (hx.eq_of_run h₁)

/-- A part that cannot raise may come after one that raises clean. -/
theorem bind_last {x : Prog ε σ α} {f : α → Prog ε σ β} (hx : RaisesClean k x)
    (hf : ∀ s a s₁ e s', x s = (.ok a, s₁) → f a s₁ ≠ (.error e, s')) :
    RaisesClean k (x >>= f) := by
  intro s e s' h
  rcases bind_error.1 h with h | ⟨a, s₁, h₁, h₂⟩
  · exact hx s e s' h
  · exact absurd h₂ (hf s a s₁ e s' h₁)

end RaisesClean

/-! ## Exceptions -/

/-- Every exception `x` raises satisfies `E`. -/
def RaisesOnly (E : ε → Prop) (x : Prog ε σ α) : Prop := ∀ s e s', x s = (.error e, s') → E e

namespace RaisesOnly

variable {E : ε → Prop}

theorem pure (a : α) : RaisesOnly E (Pure.pure a : Prog ε σ α) := by
  intro s e s' h
  simp at h

theorem throw {e : ε} (he : E e) : RaisesOnly E (MonadExcept.throw e : Prog ε σ α) := by
  intro s e' s' h
  simp only [throw_run, Prod.mk.injEq, Except.error.injEq] at h
  exact h.1 ▸ he

theorem lift {r : Except ε α} (hr : ∀ e, r = .error e → E e) :
    RaisesOnly E (Prog.lift r : Prog ε σ α) := by
  intro s e s' h
  simp only [lift_run, Prod.mk.injEq] at h
  exact hr e h.1

theorem gets (f : σ → α) : RaisesOnly E (Prog.gets f : Prog ε σ α) := by
  intro s e s' h
  simp at h

theorem bind {x : Prog ε σ α} {f : α → Prog ε σ β} (hx : RaisesOnly E x)
    (hf : ∀ a, RaisesOnly E (f a)) : RaisesOnly E (x >>= f) := by
  intro s e s' h
  rcases bind_error.1 h with h | ⟨a, s₁, _, h⟩
  · exact hx s e s' h
  · exact hf a s₁ e s' h

theorem modify (f : σ → σ) : RaisesOnly E (Prog.modify f : Prog ε σ Unit) := by
  intro s e s' h
  simp at h

theorem tryCatch {E' : ε → Prop} {x : Prog ε σ α} {h : ε → Prog ε σ α} (hx : RaisesOnly E' x)
    (hh : ∀ e, E' e → RaisesOnly E (h e)) : RaisesOnly E (MonadExcept.tryCatch x h) := by
  intro s e s' hrun
  rw [tryCatch_run] at hrun
  rcases hs : x s with ⟨e₁ | a, s₁⟩ <;> rw [hs] at hrun
  · exact hh e₁ (hx s e₁ s₁ hs) s₁ e s' hrun
  · cases hrun

/-- A part that cannot raise may come after one. -/
theorem bind_last {x : Prog ε σ α} {f : α → Prog ε σ β} (hx : RaisesOnly E x)
    (hf : ∀ s a s₁ e s', x s = (.ok a, s₁) → f a s₁ ≠ (.error e, s')) :
    RaisesOnly E (x >>= f) := by
  intro s e s' h
  rcases bind_error.1 h with h | ⟨a, s₁, h₁, h₂⟩
  · exact hx s e s' h
  · exact absurd h₂ (hf s a s₁ e s' h₁)

theorem forEach {f : α → Prog ε σ Unit} (hf : ∀ a, RaisesOnly E (f a)) :
    ∀ l : List α, RaisesOnly E (Prog.forEach f l)
  | [] => RaisesOnly.pure ()
  | a :: l => (hf a).bind fun _ => forEach hf l

end RaisesOnly

/-! ## Two runs -/

/-- From `R`-related states the two programs have the same outcome and end in `R`-related states. -/
def Agrees (R : σ → σ → Prop) (x y : Prog ε σ α) : Prop :=
  ∀ s t, R s t → (x s).1 = (y t).1 ∧ R (x s).2 (y t).2

/-- From `R`-related states `x` has the same outcome and ends in `R`-related states. -/
def Respects (R : σ → σ → Prop) (x : Prog ε σ α) : Prop :=
  ∀ s t, R s t → (x s).1 = (x t).1 ∧ R (x s).2 (x t).2

theorem Agrees.bind {R : σ → σ → Prop} {x y : Prog ε σ α} {f g : α → Prog ε σ β}
    (hx : Agrees R x y) (hf : ∀ a, Agrees R (f a) (g a)) : Agrees R (x >>= f) (y >>= g) := by
  intro s t h
  obtain ⟨h₁, h₂⟩ := hx s t h
  simp only [bind_run]
  rcases hs : x s with ⟨r, s₁⟩
  rcases ht : y t with ⟨r', t₁⟩
  rw [hs, ht] at h₁ h₂
  obtain rfl : r = r' := h₁
  cases r with
  | error e => exact ⟨rfl, h₂⟩
  | ok a => exact hf a s₁ t₁ h₂

namespace Respects

variable {R : σ → σ → Prop}

theorem pure (a : α) : Respects R (Pure.pure a : Prog ε σ α) := fun _ _ h => ⟨rfl, h⟩

theorem throw (e : ε) : Respects R (MonadExcept.throw e : Prog ε σ α) := fun _ _ h => ⟨rfl, h⟩

theorem lift (r : Except ε α) : Respects R (Prog.lift r : Prog ε σ α) := fun _ _ h => ⟨rfl, h⟩

theorem gets {f : σ → α} (hf : ∀ s t, R s t → f s = f t) :
    Respects R (Prog.gets f : Prog ε σ α) := fun s t h => ⟨congrArg Except.ok (hf s t h), h⟩

/-- What is read may differ, if the rest agrees on it. -/
theorem gets_bind {f : σ → α} {g : α → Prog ε σ β}
    (h : ∀ s t, R s t → Agrees R (g (f s)) (g (f t))) :
    Respects R ((Prog.gets f : Prog ε σ α) >>= g) := by
  intro s t hR
  simp only [gets_bind_run]
  exact h s t hR s t hR

theorem modify {f : σ → σ} (hf : ∀ s t, R s t → R (f s) (f t)) :
    Respects R (Prog.modify f : Prog ε σ Unit) := fun s t h => ⟨rfl, hf s t h⟩

theorem bind {x : Prog ε σ α} {f : α → Prog ε σ β} (hx : Respects R x)
    (hf : ∀ a, Respects R (f a)) : Respects R (x >>= f) := Agrees.bind hx hf

theorem tryCatch {x : Prog ε σ α} {h : ε → Prog ε σ α} (hx : Respects R x)
    (hh : ∀ e, Respects R (h e)) : Respects R (MonadExcept.tryCatch x h) := by
  intro s t hR
  obtain ⟨h₁, h₂⟩ := hx s t hR
  simp only [tryCatch_run]
  rcases hs : x s with ⟨r, s₁⟩
  rcases ht : x t with ⟨r', t₁⟩
  rw [hs, ht] at h₁ h₂
  obtain rfl : r = r' := h₁
  cases r with
  | error e => exact hh e s₁ t₁ h₂
  | ok a => exact ⟨rfl, h₂⟩

theorem ensuring {x : Prog ε σ α} {fin : Prog ε σ Unit} (hx : Respects R x)
    (hfin : Respects R fin) : Respects R (x.ensuring fin) := by
  intro s t hR
  obtain ⟨h₁, h₂⟩ := hx s t hR
  obtain ⟨h₃, h₄⟩ := hfin _ _ h₂
  unfold Prog.ensuring
  rcases hs : fin (x s).2 with ⟨r, s'⟩
  rcases ht : fin (x t).2 with ⟨r', t'⟩
  rw [hs, ht] at h₃ h₄
  obtain rfl : r = r' := h₃
  cases r with
  | error e => exact ⟨rfl, h₄⟩
  | ok a => exact ⟨h₁, h₄⟩

theorem forEach {f : α → Prog ε σ Unit} (hf : ∀ a, Respects R (f a)) :
    ∀ l : List α, Respects R (Prog.forEach f l)
  | [] => Respects.pure ()
  | a :: l => (hf a).bind fun _ => forEach hf l

end Respects

end Prog

end PaaRuntime
