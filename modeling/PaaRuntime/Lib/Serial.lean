import Mathlib.Data.List.Nodup
import PaaRuntime.Lib.Interleaving

/-!
# Answers given one after the other

Each thread of an interleaved system gives at most one answer. Against it stands a system in which
answers are given one after the other: `Serial between answers b h b'` goes from `b` to `b'` by the
answers of the history `h`, in its order, and by what may happen between two of them.

`Run.serialized` is the rule: where each action of the threads is matched (`Matched`) by nothing, by
something between answers, or by the answer that a thread gives in it, every run is matched by a
history of exactly the answers given. Since an answer enters the history when it is given, the history
of a run begins with those of its earlier states, so that it keeps the order of answers in time.
-/

namespace PaaRuntime

variable {σ τ α β ε : Type}

/-- Going from one state to another by the answers of a history, one after the other. -/
inductive Serial (between : β → β → Prop) (answers : β → ε → β → Prop) :
    β → List (ℕ × ε) → β → Prop
  | refl (b : β) : Serial between answers b [] b
  | between {b b' b'' : β} {h : List (ℕ × ε)} (hb : Serial between answers b h b')
      (hnext : between b' b'') : Serial between answers b h b''
  | answer {b b' b'' : β} {h : List (ℕ × ε)} {i : ℕ} {e : ε} (hb : Serial between answers b h b')
      (hnext : answers b' e b'') : Serial between answers b (h ++ [(i, e)]) b''

/-- The history holds the answers that the threads have given, one for each of them. -/
structure Answered (answer? : τ → Option ε) (T : Threads σ τ) (h : List (ℕ × ε)) : Prop where
  given : ∀ i e, (i, e) ∈ h ↔ answer? (T.thread i) = some e
  once : (h.map Prod.fst).Nodup

/-- Going from `T` to `T'` is matched by going from `b` to `b'`. -/
inductive Matched (between : β → β → Prop) (answers : β → ε → β → Prop) (answer? : τ → Option ε)
    (T T' : Threads σ τ) (b b' : β) : Prop
  | silent (hb : b' = b) (hsame : ∀ i, answer? (T'.thread i) = answer? (T.thread i))
  | between (hb : between b b') (hsame : ∀ i, answer? (T'.thread i) = answer? (T.thread i))
  | answer (i : ℕ) (e : ε) (hb : answers b e b') (hnone : answer? (T.thread i) = none)
      (hsome : answer? (T'.thread i) = some e)
      (hsame : ∀ j, j ≠ i → answer? (T'.thread j) = answer? (T.thread j))

variable {between : β → β → Prop} {answers : β → ε → β → Prop} {answer? : τ → Option ε}
  {T T' : Threads σ τ} {h : List (ℕ × ε)} {b b' : β}

theorem Answered.of_same (hT : Answered answer? T h)
    (hsame : ∀ i, answer? (T'.thread i) = answer? (T.thread i)) : Answered answer? T' h := by
  refine ⟨fun i e => ?_, hT.once⟩
  rw [hsame]
  exact hT.given i e

/-- One more thread answers. -/
theorem Answered.concat (hT : Answered answer? T h) {i : ℕ} {e : ε}
    (hnone : answer? (T.thread i) = none) (hsome : answer? (T'.thread i) = some e)
    (hsame : ∀ j, j ≠ i → answer? (T'.thread j) = answer? (T.thread j)) :
    Answered answer? T' (h ++ [(i, e)]) := by
  have hnew : ∀ e', (i, e') ∉ h := by
    intro e' hmem
    rw [hT.given, hnone] at hmem
    cases hmem
  refine ⟨fun j e' => ?_, ?_⟩
  · rw [List.mem_append, List.mem_singleton]
    by_cases hji : j = i
    · subst hji
      rw [hsome, Option.some.injEq, Prod.mk.injEq]
      constructor
      · rintro (hmem | ⟨-, rfl⟩)
        · exact absurd hmem (hnew e')
        · rfl
      · rintro rfl
        exact .inr ⟨rfl, rfl⟩
    · rw [hsame j hji, ← hT.given]
      refine ⟨fun hmem => hmem.resolve_right fun heq => ?_, .inl⟩
      exact hji (congrArg Prod.fst heq)
  · rw [List.map_append, List.map_singleton, List.nodup_append_comm, List.singleton_append,
      List.nodup_cons]
    refine ⟨fun hmem => ?_, hT.once⟩
    obtain ⟨⟨j, e'⟩, hj, hji⟩ := List.mem_map.1 hmem
    obtain rfl : j = i := hji
    exact hnew e' hj

/-- A run whose every action is matched is matched by a history of the answers given in it. -/
theorem Run.serialized {step : Threads σ τ → α → Threads σ τ} {ok : Threads σ τ → α → Prop}
    {R : Threads σ τ → β → Prop}
    (hstep : ∀ T a b, ok T a → R T b →
      ∃ b', R (step T a) b' ∧ Matched between answers answer? T (step T a) b b')
    (hR : R T b) (hT : Answered answer? T h) (hrun : Run step ok T T') :
    ∃ more b', Serial between answers b more b' ∧ R T' b' ∧ Answered answer? T' (h ++ more) := by
  induction hrun with
  | refl => exact ⟨[], b, .refl b, hR, by rwa [List.append_nil]⟩
  | @act U _ a ha ih =>
    obtain ⟨more, b₁, hserial, hR₁, hT₁⟩ := ih
    obtain ⟨b₂, hR₂, hmatched⟩ := hstep U a b₁ ha hR₁
    cases hmatched with
    | silent hb hsame =>
      subst hb
      exact ⟨more, b₂, hserial, hR₂, hT₁.of_same hsame⟩
    | between hb hsame => exact ⟨more, b₂, hserial.between hb, hR₂, hT₁.of_same hsame⟩
    | answer i e hb hnone hsome hsame =>
      refine ⟨more ++ [(i, e)], b₂, hserial.answer hb, hR₂, ?_⟩
      rw [← List.append_assoc]
      exact hT₁.concat hnone hsome hsame

end PaaRuntime
