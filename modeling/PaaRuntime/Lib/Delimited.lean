import Mathlib.Data.List.Basic
import Mathlib.Tactic.Common

/-!
# Texts that say where they end

`Delimited stop enc`: a text that starts with the code of a value, and goes on with a symbol of
`stop` if it goes on at all, starts with the code of no other value. Codes that are written one after
the other, between separators, or symbol by symbol up to a closing symbol, are delimited where their
parts are.
-/

namespace PaaRuntime

variable {α β σ : Type}

/-- The text is at its end, or goes on with a symbol of `stop`. -/
def StopsAt (stop : σ → Prop) (u : List σ) : Prop := ∀ c ∈ u.head?, stop c

theorem stopsAt_nil (stop : σ → Prop) : StopsAt stop [] := by exact nofun

@[simp] theorem stopsAt_cons {stop : σ → Prop} {c : σ} {u : List σ} :
    StopsAt stop (c :: u) ↔ stop c := by
  simp [StopsAt]

/-- The code of a value can be told from what follows it. -/
def Delimited (stop : σ → Prop) (enc : α → List σ) : Prop :=
  ∀ a b u v, StopsAt stop u → StopsAt stop v → enc a ++ u = enc b ++ v → a = b ∧ u = v

namespace Delimited

variable {stop : σ → Prop} {enc : α → List σ}

theorem injective (h : Delimited stop enc) : Function.Injective enc := by
  intro a b hab
  exact (h a b [] [] (stopsAt_nil _) (stopsAt_nil _) (congrArg (· ++ []) hab)).1

/-- A code that can be read back, whatever follows it. -/
theorem of_decode {dec : List σ → Option (α × List σ)} (h : ∀ a u, dec (enc a ++ u) = some (a, u))
    (any : σ → Prop) : Delimited any enc := by
  intro a b u v _ _ huv
  have hread := h a u
  rw [huv, h b v] at hread
  exact Prod.mk.inj (Option.some.inj hread.symm)

/-- A code without stopping symbols. -/
theorem of_forall (hinj : Function.Injective enc) (h : ∀ a, ∀ c ∈ enc a, ¬stop c) :
    Delimited stop enc := by
  classical
  have hcut : ∀ a u, StopsAt stop u →
      (enc a ++ u).takeWhile (fun c => ¬stop c) = enc a ∧
        (enc a ++ u).dropWhile (fun c => ¬stop c) = u := by
    intro a u hu
    have hall : ∀ c ∈ enc a, decide (¬stop c) = true := fun c hc => decide_eq_true (h a c hc)
    rw [List.takeWhile_append_of_pos hall, List.dropWhile_append_of_pos hall]
    rcases u with _ | ⟨c, u⟩
    · simp
    · have hc := stopsAt_cons.1 hu
      simp [hc]
  intro a b u v hu hv huv
  obtain ⟨ha, hu'⟩ := hcut a u hu
  obtain ⟨hb, hv'⟩ := hcut b v hv
  rw [huv] at ha hu'
  exact ⟨hinj (ha.symm.trans hb), hu'.symm.trans hv'⟩

/-- The values may come from elsewhere. -/
theorem comap (h : Delimited stop enc) {f : β → α} (hf : Function.Injective f) :
    Delimited stop fun b => enc (f b) := by
  intro a b u v hu hv huv
  obtain ⟨hab, hrest⟩ := h _ _ u v hu hv huv
  exact ⟨hf hab, hrest⟩

/-- After symbols that are always the same. -/
theorem lead (h : Delimited stop enc) (l : List σ) : Delimited stop fun a => l ++ enc a := by
  intro a b u v hu hv huv
  rw [List.append_assoc, List.append_assoc] at huv
  exact h a b u v hu hv (List.append_cancel_left huv)

/-- Codes one after the other, up to a symbol that starts none of them. -/
theorem flatMap_close (h : Delimited stop enc) {q : σ} (hq : stop q)
    (hstart : ∀ a, ∃ c r, enc a = c :: r ∧ stop c ∧ c ≠ q) (any : σ → Prop) :
    Delimited any fun l : List α => l.flatMap enc ++ [q] := by
  have hstop : ∀ (l : List α) u, StopsAt stop (l.flatMap enc ++ q :: u) := by
    rintro (_ | ⟨a, l⟩) u
    · exact stopsAt_cons.2 hq
    · obtain ⟨c, r, hc, hcs, -⟩ := hstart a
      rw [List.flatMap_cons, hc]
      exact stopsAt_cons.2 hcs
  suffices hlist : ∀ l l' : List α, ∀ u v, l.flatMap enc ++ q :: u = l'.flatMap enc ++ q :: v →
      l = l' ∧ u = v by
    intro l l' u v _ _ huv
    rw [List.append_assoc, List.append_assoc] at huv
    exact hlist l l' u v huv
  intro l
  induction l with
  | nil =>
    rintro (_ | ⟨b, l'⟩) u v huv
    · exact ⟨rfl, (List.cons.inj huv).2⟩
    · obtain ⟨c, r, hc, -, hne⟩ := hstart b
      rw [List.flatMap_cons, hc] at huv
      exact absurd (List.cons.inj huv).1.symm hne
  | cons a l ih =>
    rintro (_ | ⟨b, l'⟩) u v huv
    · obtain ⟨c, r, hc, -, hne⟩ := hstart a
      rw [List.flatMap_cons, hc] at huv
      exact absurd (List.cons.inj huv).1 hne
    · rw [List.flatMap_cons, List.flatMap_cons, List.append_assoc, List.append_assoc] at huv
      obtain ⟨rfl, hrest⟩ := h a b _ _ (hstop l u) (hstop l' v) huv
      obtain ⟨rfl, hend⟩ := ih l' u v hrest
      exact ⟨rfl, hend⟩

/-- Codes between separators: the first, then each of the others after a separator. -/
theorem intercalate_cons_map (s : σ) (enc : α → List σ) (a : α) (l : List α) :
    [s].intercalate ((a :: l).map enc) = enc a ++ l.flatMap fun b => s :: enc b := by
  induction l generalizing a with
  | nil => simp
  | cons b l ih =>
    have htail := ih b
    rw [List.map_cons] at htail ⊢
    rw [List.map_cons, List.intercalate_cons_cons, htail, List.flatMap_cons, List.append_assoc]
    rfl

/-- Codes between separators, up to a symbol that closes them. -/
theorem intercalate_close (h : Delimited stop enc) {s q : σ} (hs : stop s) (hq : stop q)
    (hne : s ≠ q) (hstart : ∀ a, ∃ c r, enc a = c :: r ∧ c ≠ q) (any : σ → Prop) :
    Delimited any fun l : List α => [s].intercalate (l.map enc) ++ [q] := by
  have hlater : Delimited (fun _ => True) fun l : List α => (l.flatMap fun b => s :: enc b) ++ [q] :=
    (h.lead [s]).flatMap_close hq (fun a => ⟨s, enc a, rfl, hs, hne⟩) _
  have hstop : ∀ (l : List α) u, StopsAt stop (((l.flatMap fun b => s :: enc b) ++ [q]) ++ u) := by
    rintro (_ | ⟨a, l⟩) u
    · exact stopsAt_cons.2 hq
    · exact stopsAt_cons.2 hs
  rintro (_ | ⟨a, l⟩) (_ | ⟨b, l'⟩) u v _ _ huv <;> dsimp only at huv
  · exact ⟨rfl, (List.cons.inj huv).2⟩
  · obtain ⟨c, r, hc, hcq⟩ := hstart b
    rw [intercalate_cons_map, hc] at huv
    exact absurd (List.cons.inj huv).1.symm hcq
  · obtain ⟨c, r, hc, hcq⟩ := hstart a
    rw [intercalate_cons_map, hc] at huv
    exact absurd (List.cons.inj huv).1 hcq
  · simp only [intercalate_cons_map, List.append_assoc] at huv
    simp only [List.append_assoc] at hstop
    obtain ⟨rfl, hrest⟩ := h a b _ _ (hstop l u) (hstop l' v) huv
    obtain ⟨rfl, hend⟩ := hlater l l' u v (fun _ _ => trivial) (fun _ _ => trivial)
      (by rwa [List.append_assoc, List.append_assoc])
    exact ⟨rfl, hend⟩

end Delimited

end PaaRuntime
