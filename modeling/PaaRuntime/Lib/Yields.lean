import PaaRuntime.Lib.Prog

/-!
# Programs under an invariant

`Yields P Q x`: from a state with `P` the program `x` ends in one, however it ends, and what it
returns satisfies `Q`. There is one rule for each program constructor; the postcondition of a part is
what the next part may assume.
-/

namespace PaaRuntime

namespace Prog

variable {ε σ α β γ : Type} {P : σ → Prop} {Q : α → Prop} {R : β → Prop}

/-- The program keeps `P`, and returns only what satisfies `Q`. -/
def Yields (P : σ → Prop) (Q : α → Prop) (x : Prog ε σ α) : Prop :=
  ∀ s, P s → P (x s).2 ∧ ∀ a, (x s).1 = .ok a → Q a

namespace Yields

theorem pure {a : α} (ha : Q a) : Yields P Q (Pure.pure a : Prog ε σ α) := by
  intro s hs
  refine ⟨hs, fun b hb => ?_⟩
  cases hb
  exact ha

theorem throw (e : ε) : Yields P Q (MonadExcept.throw e : Prog ε σ α) := by
  intro s hs
  exact ⟨hs, fun b hb => nomatch hb⟩

theorem lift {r : Except ε α} (hr : ∀ a, r = .ok a → Q a) : Yields P Q (Prog.lift r : Prog ε σ α) :=
  fun _ hs => ⟨hs, hr⟩

theorem gets {f : σ → α} (hf : ∀ s, P s → Q (f s)) : Yields P Q (Prog.gets f : Prog ε σ α) := by
  intro s hs
  refine ⟨hs, fun b hb => ?_⟩
  cases hb
  exact hf s hs

theorem modify {f : σ → σ} {Q : Unit → Prop} (hf : ∀ s, P s → P (f s)) (hQ : Q ()) :
    Yields P Q (Prog.modify f : Prog ε σ Unit) := fun s hs => ⟨hf s hs, fun _ _ => hQ⟩

theorem bind {x : Prog ε σ α} {f : α → Prog ε σ β} (hx : Yields P Q x)
    (hf : ∀ a, Q a → Yields P R (f a)) : Yields P R (x >>= f) := by
  intro s hs
  have h := hx s hs
  rw [bind_run]
  rcases hr : x s with ⟨e | a, s₁⟩ <;> rw [hr] at h
  · exact ⟨h.1, fun b hb => nomatch hb⟩
  · exact hf a (h.2 a rfl) s₁ h.1

/-- Whatever is read from the state, the program may go on. -/
theorem gets_bind {f : σ → α} {g : α → Prog ε σ β} (hg : ∀ a, Yields P R (g a)) :
    Yields P R (Prog.gets f >>= g) :=
  bind (Q := fun _ => True) (gets fun _ _ => trivial) fun a _ => hg a

theorem tryCatch {x : Prog ε σ α} {h : ε → Prog ε σ α} (hx : Yields P Q x)
    (hh : ∀ e, Yields P Q (h e)) : Yields P Q (MonadExcept.tryCatch x h) := by
  intro s hs
  have h' := hx s hs
  rw [tryCatch_run]
  rcases hr : x s with ⟨e | a, s₁⟩ <;> rw [hr] at h'
  · exact hh e s₁ h'.1
  · exact ⟨h'.1, h'.2⟩

theorem forEach {f : α → Prog ε σ Unit} {l : List α} (hf : ∀ a ∈ l, Yields P (fun _ => True) (f a)) :
    Yields P (fun _ => True) (Prog.forEach f l) := by
  induction l with
  | nil => exact .pure trivial
  | cons a l ih =>
    refine (hf a List.mem_cons_self).bind fun _ _ => ih fun b hb => hf b ?_
    exact List.mem_cons_of_mem a hb

theorem mono {Q' : α → Prop} {x : Prog ε σ α} (hx : Yields P Q x) (h : ∀ a, Q a → Q' a) :
    Yields P Q' x := fun s hs => ⟨(hx s hs).1, fun a ha => h a ((hx s hs).2 a ha)⟩

/-- What a program returns satisfies the postcondition. -/
theorem ok {x : Prog ε σ α} (hx : Yields P Q x) {s s' : σ} {a : α} (hs : P s)
    (h : x s = (.ok a, s')) : P s' ∧ Q a := by
  have hr := hx s hs
  rw [h] at hr
  exact ⟨hr.1, hr.2 a rfl⟩

/-- What a program raises from satisfies the invariant. -/
theorem error {x : Prog ε σ α} (hx : Yields P Q x) {s s' : σ} {e : ε} (hs : P s)
    (h : x s = (.error e, s')) : P s' := by
  have hr := hx s hs
  rw [h] at hr
  exact hr.1

end Yields

end Prog

end PaaRuntime
