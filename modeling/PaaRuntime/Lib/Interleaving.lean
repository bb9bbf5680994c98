import Mathlib.Logic.Function.Basic
import Mathlib.Tactic.Common

/-!
# Runs, and interleaved threads over a shared state

`Run step ok s t`: the machine `step` goes from `s` to `t` by actions that `ok` allows, one after
the other. `Threads σ τ` is a family of threads with local states `τ` over one shared state `σ`;
an action of a thread changes the shared state and its own local state only.

An invariant of interleaved threads has three parts: one of the shared state, one of each thread
beside the shared state, and one of each pair of threads. `Threads.Inv.act` says what an action
must preserve of them: its own three parts, and what the other threads rely on.
-/

namespace PaaRuntime

/-! ## Runs -/

section Run

variable {σ α : Type} {step : σ → α → σ} {ok ok' : σ → α → Prop} {s t u : σ}

/-- Going from one state to another by allowed actions. -/
inductive Run (step : σ → α → σ) (ok : σ → α → Prop) : σ → σ → Prop
  | refl (s : σ) : Run step ok s s
  | act {s t : σ} (h : Run step ok s t) (a : α) (ha : ok t a) : Run step ok s (step t a)

namespace Run

theorem trans (h : Run step ok s t) (h' : Run step ok t u) : Run step ok s u := by
  induction h' with
  | refl => exact h
  | act _ a ha ih => exact ih.act a ha

theorem single (a : α) (ha : ok s a) : Run step ok s (step s a) := (refl s).act a ha

/-- Actions taken one after the other, where each of them is allowed in every state. -/
theorem foldl (s : σ) (l : List α) (hl : ∀ a ∈ l, ∀ t, ok t a) : Run step ok s (l.foldl step s) := by
  induction l generalizing s with
  | nil => exact refl s
  | cons a l ih =>
    exact (single a (hl a List.mem_cons_self s)).trans
      (ih (step s a) fun b hb => hl b (List.mem_cons_of_mem _ hb))

/-- What every allowed action preserves holds along a run. -/
theorem invariant {P : σ → Prop} (hstep : ∀ t a, ok t a → P t → P (step t a)) (hs : P s)
    (h : Run step ok s t) : P t := by
  induction h with
  | refl => exact hs
  | act _ a ha ih => exact hstep _ a ha ih

/-- A reflexive and transitive relation that every allowed action respects holds along a run. -/
theorem relation {R : σ → σ → Prop} (hrefl : ∀ s, R s s) (htrans : ∀ {s t u}, R s t → R t u → R s u)
    (hstep : ∀ t a, ok t a → R t (step t a)) (h : Run step ok s t) : R s t := by
  induction h with
  | refl => exact hrefl _
  | act _ a ha ih => exact htrans ih (hstep _ a ha)

theorem mono (hok : ∀ t a, ok t a → ok' t a) (h : Run step ok s t) : Run step ok' s t := by
  induction h with
  | refl => exact refl _
  | act _ a ha ih => exact ih.act a (hok _ a ha)

/-- A run whose actions also satisfy what every reached state implies. -/
theorem strengthen {P : σ → Prop} (hstep : ∀ t a, ok t a → P t → P (step t a)) (hs : P s)
    (hok : ∀ t a, P t → ok t a → ok' t a) (h : Run step ok s t) : Run step ok' s t := by
  induction h with
  | refl => exact refl _
  | act h a ha ih => exact ih.act a (hok _ a (h.invariant hstep hs) ha)

end Run

end Run

/-! ## Threads -/

/-- Threads with local states over a shared state. -/
structure Threads (σ τ : Type) where
  shared : σ
  thread : ℕ → τ

namespace Threads

variable {σ τ : Type}

/-- Thread `i` acts on the shared state and its own local state. -/
def act (T : Threads σ τ) (i : ℕ) (f : σ → τ → σ × τ) : Threads σ τ :=
  ⟨(f T.shared (T.thread i)).1, Function.update T.thread i (f T.shared (T.thread i)).2⟩

@[simp] theorem act_shared (T : Threads σ τ) (i : ℕ) (f : σ → τ → σ × τ) :
    (T.act i f).shared = (f T.shared (T.thread i)).1 := rfl

@[simp] theorem act_thread_self (T : Threads σ τ) (i : ℕ) (f : σ → τ → σ × τ) :
    (T.act i f).thread i = (f T.shared (T.thread i)).2 := Function.update_self ..

theorem act_thread_of_ne (T : Threads σ τ) {i j : ℕ} (f : σ → τ → σ × τ) (h : j ≠ i) :
    (T.act i f).thread j = T.thread j := Function.update_of_ne h ..

/-- An invariant of interleaved threads: of the shared state, of each thread beside it, and of
each pair of threads. -/
structure Inv (I : σ → Prop) (L : ℕ → σ → τ → Prop) (X : τ → τ → Prop) (T : Threads σ τ) :
    Prop where
  shared : I T.shared
  own : ∀ i, L i T.shared (T.thread i)
  apart : ∀ i j, i ≠ j → X (T.thread i) (T.thread j)

/-- An action keeps an invariant when it keeps the shared part, its own part, the part of every
thread it is apart from, and stays apart from it. -/
theorem Inv.act {I : σ → Prop} {L : ℕ → σ → τ → Prop} {X : τ → τ → Prop} {T : Threads σ τ}
    (h : Inv I L X T) (i : ℕ) {f : σ → τ → σ × τ} (hI : I (f T.shared (T.thread i)).1)
    (hL : L i (f T.shared (T.thread i)).1 (f T.shared (T.thread i)).2)
    (hothers : ∀ j l, j ≠ i → L j T.shared l → X (T.thread i) l → X l (T.thread i) →
      L j (f T.shared (T.thread i)).1 l ∧ X (f T.shared (T.thread i)).2 l ∧
        X l (f T.shared (T.thread i)).2) :
    Inv I L X (T.act i f) := by
  have hj : ∀ j, j ≠ i → _ := fun j hji =>
    hothers j (T.thread j) hji (h.own j) (h.apart i j hji.symm) (h.apart j i hji)
  refine ⟨hI, fun j => ?_, fun j k hjk => ?_⟩
  · by_cases hji : j = i
    · subst hji
      simpa using hL
    · rw [act_thread_of_ne T f hji]
      exact (hj j hji).1
  · by_cases hji : j = i
    · subst hji
      rw [act_thread_self, act_thread_of_ne T f hjk.symm]
      exact (hj k hjk.symm).2.1
    · by_cases hki : k = i
      · subst hki
        rw [act_thread_self, act_thread_of_ne T f hji]
        exact (hj j hji).2.2
      · rw [act_thread_of_ne T f hji, act_thread_of_ne T f hki]
        exact h.apart j k hjk

/-- A change of the shared state alone keeps an invariant that every thread finds kept. -/
theorem Inv.setShared {I : σ → Prop} {L : ℕ → σ → τ → Prop} {X : τ → τ → Prop} {T : Threads σ τ}
    (h : Inv I L X T) {s : σ} (hI : I s) (hL : ∀ i l, L i T.shared l → L i s l) :
    Inv I L X { T with shared := s } :=
  ⟨hI, fun i => hL i _ (h.own i), h.apart⟩

end Threads

end PaaRuntime
