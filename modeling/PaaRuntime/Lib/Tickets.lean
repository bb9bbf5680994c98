import Mathlib.Logic.Function.Basic
import Mathlib.Logic.Relation
import Mathlib.Order.Nat
import Mathlib.Tactic.Common

/-!
# Cells that change by tickets

Optimistic concurrency. A ticket for a change of a cell is issued at the value the cell holds, in the
epoch it is in. A pending ticket may be refused, and it may be used while the cell is still in that
epoch; its use changes the value and ends the epoch. Nothing else changes a cell.

`Cells.Sound` is what this comes to: the values of a cell are a function of its epochs, which every
ticket agrees with, and each epoch that has ended was ended by the use of one ticket. A ticket whose
epoch has ended is never used again (`Cells.stale_forever`).
-/

namespace PaaRuntime

/-- What has become of a ticket. -/
inductive Fate
  | pending | refused | used
  deriving DecidableEq, Repr

/-- A ticket for a change of a cell, from one value to another, issued in an epoch of the cell. -/
structure Ticket (κ ν : Type) where
  cell : κ
  source : ν
  target : ν
  epoch : ℕ
  fate : Fate

/-- Cells with their values and their epochs, and the tickets issued so far. -/
@[ext]
structure Cells (κ ν ι : Type) where
  value : κ → ν
  epoch : κ → ℕ
  ticket : ι → Option (Ticket κ ν)

namespace Cells

variable {κ ν ι : Type}

/-- No tickets, and every cell in its first epoch. -/
def init (value : κ → ν) : Cells κ ν ι := ⟨value, fun _ => 0, fun _ => none⟩

section

variable [DecidableEq ι]

def setTicket (C : Cells κ ν ι) (i : ι) (t : Ticket κ ν) : Cells κ ν ι :=
  { C with ticket := Function.update C.ticket i (some t) }

variable {C : Cells κ ν ι} {i j : ι} {t u : Ticket κ ν}

@[simp] theorem setTicket_value : (C.setTicket i t).value = C.value := rfl

@[simp] theorem setTicket_epoch : (C.setTicket i t).epoch = C.epoch := rfl

theorem setTicket_self : (C.setTicket i t).ticket i = some t := Function.update_self ..

theorem setTicket_of_ne (h : j ≠ i) : (C.setTicket i t).ticket j = C.ticket j :=
  Function.update_of_ne h ..

theorem setTicket_eq_self (h : C.ticket i = some t) : C.setTicket i t = C := by
  unfold setTicket
  rw [← h, Function.update_eq_self]

theorem setTicket_eq_some : (C.setTicket i t).ticket j = some u ↔
    j = i ∧ u = t ∨ j ≠ i ∧ C.ticket j = some u := by
  by_cases h : j = i
  · subst h
    rw [setTicket_self, Option.some.injEq]
    exact ⟨fun hu => .inl ⟨rfl, hu.symm⟩, fun hu => hu.elim (·.2.symm) fun hu => absurd rfl hu.1⟩
  · rw [setTicket_of_ne h]
    exact ⟨fun hu => .inr ⟨h, hu⟩, fun hu => hu.elim (fun hu => absurd hu.1 h) (·.2)⟩

end

section

variable [DecidableEq κ]

/-- A cell changes its value, which ends its epoch. -/
def change (C : Cells κ ν ι) (k : κ) (v : ν) : Cells κ ν ι :=
  { C with
    value := Function.update C.value k v
    epoch := Function.update C.epoch k (C.epoch k + 1) }

variable {C : Cells κ ν ι} {k l : κ} {v : ν}

@[simp] theorem change_ticket : (C.change k v).ticket = C.ticket := rfl

theorem change_epoch_self : (C.change k v).epoch k = C.epoch k + 1 := Function.update_self ..

theorem change_epoch_of_ne (h : l ≠ k) : (C.change k v).epoch l = C.epoch l :=
  Function.update_of_ne h ..

theorem epoch_le_change (k : κ) (v : ν) (l : κ) : C.epoch l ≤ (C.change k v).epoch l := by
  by_cases h : l = k
  · rw [h, change_epoch_self]
    omega
  · rw [change_epoch_of_ne h]

theorem change_value_self : (C.change k v).value k = v := Function.update_self ..

theorem change_value_of_ne (h : l ≠ k) : (C.change k v).value l = C.value l :=
  Function.update_of_ne h ..

end

/-! ## What has been reached -/

/-- The values that a cell has held, one for each epoch, agree with its tickets. -/
structure Explains (C : Cells κ ν ι) (k : κ) (first : ν) (h : ℕ → ν) : Prop where
  first : h 0 = first
  now : h (C.epoch k) = C.value k
  source : ∀ i t, C.ticket i = some t → t.cell = k → t.source = h t.epoch
  target : ∀ i t, C.ticket i = some t → t.cell = k → t.fate = .used → t.target = h (t.epoch + 1)

/-- A state that is reached from the first values. -/
structure Sound (edge : κ → ν → ν → Prop) (first : κ → ν) (C : Cells κ ν ι) : Prop where
  values : ∀ k, ∃ h, C.Explains k (first k) h
  edges : ∀ i t, C.ticket i = some t → edge t.cell t.source t.target
  issued : ∀ i t, C.ticket i = some t → t.epoch ≤ C.epoch t.cell
  used : ∀ i t, C.ticket i = some t → t.fate = .used → t.epoch < C.epoch t.cell
  /-- Each epoch is ended by one use at most. -/
  once : ∀ i j t u, C.ticket i = some t → C.ticket j = some u → t.fate = .used → u.fate = .used →
    t.cell = u.cell → t.epoch = u.epoch → i = j
  /-- Each epoch that has ended was ended by a use. -/
  ended : ∀ k n, n < C.epoch k →
    ∃ i t, C.ticket i = some t ∧ t.fate = .used ∧ t.cell = k ∧ t.epoch = n

/-- The epochs of a cell that have ended are numbered by the tickets that were used. -/
theorem Sound.numbered {edge : κ → ν → ν → Prop} {first : κ → ν} {C : Cells κ ν ι}
    (h : Sound edge first C) (k : κ) (n : ℕ) :
    n < C.epoch k ↔ ∃! i, ∃ t, C.ticket i = some t ∧ t.fate = .used ∧ t.cell = k ∧ t.epoch = n := by
  constructor
  · intro hn
    obtain ⟨i, t, hi, hused, hcell, hepoch⟩ := h.ended k n hn
    refine ⟨i, ⟨t, hi, hused, hcell, hepoch⟩, fun j hj => ?_⟩
    obtain ⟨u, hu, hused', hcell', hepoch'⟩ := hj
    exact h.once j i u t hu hi hused' hused (hcell'.trans hcell.symm) (hepoch'.trans hepoch.symm)
  · rintro ⟨i, ⟨t, hi, hused, rfl, rfl⟩, -⟩
    exact h.used i t hi hused

variable [DecidableEq κ] [DecidableEq ι]

/-- What can happen, where the edges say which changes there are tickets for. -/
inductive Step (edge : κ → ν → ν → Prop) (C : Cells κ ν ι) : Cells κ ν ι → Prop
  | issue (i : ι) (k : κ) (v : ν) (hnew : C.ticket i = none) (hedge : edge k (C.value k) v) :
    Step edge C (C.setTicket i ⟨k, C.value k, v, C.epoch k, .pending⟩)
  | refuse (i : ι) (t : Ticket κ ν) (hi : C.ticket i = some t) (hfate : t.fate = .pending) :
    Step edge C (C.setTicket i { t with fate := .refused })
  | use (i : ι) (t : Ticket κ ν) (hi : C.ticket i = some t) (hfate : t.fate = .pending)
    (hepoch : t.epoch = C.epoch t.cell) :
    Step edge C ((C.setTicket i { t with fate := .used }).change t.cell t.target)

/-- Going on by any number of steps. -/
abbrev Steps (edge : κ → ν → ν → Prop) : Cells κ ν ι → Cells κ ν ι → Prop :=
  Relation.ReflTransGen (Step edge)

variable {C C' : Cells κ ν ι} {edge : κ → ν → ν → Prop} {first : κ → ν} {i : ι} {k : κ}
  {t : Ticket κ ν} {v : ν}

omit [DecidableEq κ] [DecidableEq ι] in
theorem sound_init : Sound edge first (init first : Cells κ ν ι) where
  values k := ⟨fun _ => first k, rfl, rfl, by exact nofun, by exact nofun⟩
  edges := by exact nofun
  issued := by exact nofun
  used := by exact nofun
  once := by exact nofun
  ended := by exact nofun

omit [DecidableEq κ] in
/-- Issuing a ticket keeps a state sound. -/
theorem Sound.issue (h : Sound edge first C) (hnew : C.ticket i = none)
    (hedge : edge k (C.value k) v) :
    Sound edge first (C.setTicket i ⟨k, C.value k, v, C.epoch k, .pending⟩) where
  values l := by
    obtain ⟨w, hw⟩ := h.values l
    refine ⟨w, hw.first, hw.now, fun j u hj hcell => ?_, fun j u hj hcell hused => ?_⟩
    · rcases setTicket_eq_some.1 hj with ⟨-, rfl⟩ | ⟨-, hj⟩
      · obtain rfl : k = l := hcell
        exact hw.now.symm
      · exact hw.source j u hj hcell
    · rcases setTicket_eq_some.1 hj with ⟨-, rfl⟩ | ⟨-, hj⟩
      · cases hused
      · exact hw.target j u hj hcell hused
  edges j u hj := by
    rcases setTicket_eq_some.1 hj with ⟨-, rfl⟩ | ⟨-, hj⟩
    · exact hedge
    · exact h.edges j u hj
  issued j u hj := by
    rcases setTicket_eq_some.1 hj with ⟨-, rfl⟩ | ⟨-, hj⟩
    · exact le_rfl
    · exact h.issued j u hj
  used j u hj hused := by
    rcases setTicket_eq_some.1 hj with ⟨-, rfl⟩ | ⟨-, hj⟩
    · cases hused
    · exact h.used j u hj hused
  once j j' u u' hj hj' hused hused' := by
    rcases setTicket_eq_some.1 hj with ⟨-, rfl⟩ | ⟨-, hj⟩
    · cases hused
    · rcases setTicket_eq_some.1 hj' with ⟨-, rfl⟩ | ⟨-, hj'⟩
      · cases hused'
      · exact h.once j j' u u' hj hj' hused hused'
  ended l n hn := by
    obtain ⟨j, u, hj, hrest⟩ := h.ended l n hn
    refine ⟨j, u, setTicket_eq_some.2 (.inr ⟨?_, hj⟩), hrest⟩
    rintro rfl
    rw [hnew] at hj
    cases hj

omit [DecidableEq κ] in
/-- So does refusing one. -/
theorem Sound.refuse (h : Sound edge first C) (hi : C.ticket i = some t)
    (hfate : t.fate = .pending) : Sound edge first (C.setTicket i { t with fate := .refused }) where
  values l := by
    obtain ⟨w, hw⟩ := h.values l
    refine ⟨w, hw.first, hw.now, fun j u hj hcell => ?_, fun j u hj hcell hused => ?_⟩
    · rcases setTicket_eq_some.1 hj with ⟨-, rfl⟩ | ⟨-, hj⟩
      · exact hw.source i t hi hcell
      · exact hw.source j u hj hcell
    · rcases setTicket_eq_some.1 hj with ⟨-, rfl⟩ | ⟨-, hj⟩
      · cases hused
      · exact hw.target j u hj hcell hused
  edges j u hj := by
    rcases setTicket_eq_some.1 hj with ⟨-, rfl⟩ | ⟨-, hj⟩
    · exact h.edges i t hi
    · exact h.edges j u hj
  issued j u hj := by
    rcases setTicket_eq_some.1 hj with ⟨-, rfl⟩ | ⟨-, hj⟩
    · exact h.issued i t hi
    · exact h.issued j u hj
  used j u hj hused := by
    rcases setTicket_eq_some.1 hj with ⟨-, rfl⟩ | ⟨-, hj⟩
    · cases hused
    · exact h.used j u hj hused
  once j j' u u' hj hj' hused hused' := by
    rcases setTicket_eq_some.1 hj with ⟨-, rfl⟩ | ⟨-, hj⟩
    · cases hused
    · rcases setTicket_eq_some.1 hj' with ⟨-, rfl⟩ | ⟨-, hj'⟩
      · cases hused'
      · exact h.once j j' u u' hj hj' hused hused'
  ended l n hn := by
    obtain ⟨j, u, hj, hused, hrest⟩ := h.ended l n hn
    refine ⟨j, u, setTicket_eq_some.2 (.inr ⟨?_, hj⟩), hused, hrest⟩
    rintro rfl
    obtain rfl : t = u := Option.some.inj (hi.symm.trans hj)
    rw [hfate] at hused
    cases hused

/-- So does using one in its epoch: the value it leads to is that of the next epoch. -/
theorem Sound.use (h : Sound edge first C) (hi : C.ticket i = some t) (hfate : t.fate = .pending)
    (hepoch : t.epoch = C.epoch t.cell) :
    Sound edge first ((C.setTicket i { t with fate := .used }).change t.cell t.target) where
  values l := by
    obtain ⟨w, hw⟩ := h.values l
    by_cases hl : l = t.cell
    · subst hl
      have hkept : ∀ n, n ≤ C.epoch t.cell →
          Function.update w (C.epoch t.cell + 1) t.target n = w n := by
        intro n hn
        exact Function.update_of_ne (by omega) ..
      refine ⟨Function.update w (C.epoch t.cell + 1) t.target, ?_, ?_, fun j u hj hcell => ?_,
        fun j u hj hcell hused => ?_⟩
      · rw [hkept 0 (Nat.zero_le _)]
        exact hw.first
      · rw [change_epoch_self, change_value_self, setTicket_epoch, Function.update_self]
      · rw [change_ticket] at hj
        rcases setTicket_eq_some.1 hj with ⟨-, rfl⟩ | ⟨-, hj⟩
        · show t.source = _
          rw [hkept _ hepoch.le]
          exact hw.source i t hi rfl
        · rw [hkept _ (hcell ▸ h.issued j u hj)]
          exact hw.source j u hj hcell
      · rw [change_ticket] at hj
        rcases setTicket_eq_some.1 hj with ⟨-, rfl⟩ | ⟨-, hj⟩
        · show t.target = Function.update w (C.epoch t.cell + 1) t.target (t.epoch + 1)
          rw [hepoch, Function.update_self]
        · rw [hkept _ (hcell ▸ h.used j u hj hused)]
          exact hw.target j u hj hcell hused
    · refine ⟨w, hw.first, ?_, fun j u hj hcell => ?_, fun j u hj hcell hused => ?_⟩
      · rw [change_epoch_of_ne hl, change_value_of_ne hl]
        exact hw.now
      · rw [change_ticket] at hj
        rcases setTicket_eq_some.1 hj with ⟨-, rfl⟩ | ⟨-, hj⟩
        · exact absurd hcell.symm hl
        · exact hw.source j u hj hcell
      · rw [change_ticket] at hj
        rcases setTicket_eq_some.1 hj with ⟨-, rfl⟩ | ⟨-, hj⟩
        · exact absurd hcell.symm hl
        · exact hw.target j u hj hcell hused
  edges j u hj := by
    rw [change_ticket] at hj
    rcases setTicket_eq_some.1 hj with ⟨-, rfl⟩ | ⟨-, hj⟩
    · exact h.edges i t hi
    · exact h.edges j u hj
  issued j u hj := by
    rw [change_ticket] at hj
    refine le_trans ?_ (epoch_le_change _ t.target _)
    rcases setTicket_eq_some.1 hj with ⟨-, rfl⟩ | ⟨-, hj⟩
    · exact h.issued i t hi
    · exact h.issued j u hj
  used j u hj hused := by
    rw [change_ticket] at hj
    rcases setTicket_eq_some.1 hj with ⟨-, rfl⟩ | ⟨-, hj⟩
    · show t.epoch < (Cells.change _ t.cell t.target).epoch t.cell
      rw [change_epoch_self, setTicket_epoch]
      omega
    · exact (h.used j u hj hused).trans_le (epoch_le_change _ t.target _)
  once j j' u u' hj hj' hused hused' hcell hsame := by
    rw [change_ticket] at hj hj'
    -- the other uses of the cell ended epochs before this one
    rcases setTicket_eq_some.1 hj with ⟨rfl, rfl⟩ | ⟨-, hj⟩
    · rcases setTicket_eq_some.1 hj' with ⟨rfl, rfl⟩ | ⟨-, hj'⟩
      · rfl
      · have hlt := h.used j' u' hj' hused'
        dsimp only at hcell hsame
        rw [← hcell, ← hepoch, hsame] at hlt
        exact absurd hlt (lt_irrefl _)
    · have hlt := h.used j u hj hused
      rcases setTicket_eq_some.1 hj' with ⟨rfl, rfl⟩ | ⟨-, hj'⟩
      · dsimp only at hcell hsame
        rw [hcell, ← hepoch, hsame] at hlt
        exact absurd hlt (lt_irrefl _)
      · exact h.once j j' u u' hj hj' hused hused' hcell hsame
  ended l n hn := by
    by_cases hlast : l = t.cell ∧ n = t.epoch
    · obtain ⟨rfl, rfl⟩ := hlast
      exact ⟨i, _, setTicket_self, rfl, rfl, rfl⟩
    · have hold : n < C.epoch l := by
        by_cases hl : l = t.cell
        · subst hl
          rw [change_epoch_self, setTicket_epoch] at hn
          have hne : n ≠ t.epoch := fun hne => hlast ⟨rfl, hne⟩
          omega
        · rwa [change_epoch_of_ne hl] at hn
      obtain ⟨j, u, hj, hused, hrest⟩ := h.ended l n hold
      refine ⟨j, u, setTicket_eq_some.2 (.inr ⟨?_, hj⟩), hused, hrest⟩
      rintro rfl
      obtain rfl : t = u := Option.some.inj (hi.symm.trans hj)
      rw [hfate] at hused
      cases hused

theorem Sound.step (h : Sound edge first C) (hstep : Step edge C C') : Sound edge first C' := by
  cases hstep with
  | issue i k v hnew hedge => exact h.issue hnew hedge
  | refuse i t hi hfate => exact h.refuse hi hfate
  | use i t hi hfate hepoch => exact h.use hi hfate hepoch

/-- **Every state reached is sound.** -/
theorem sound_of_steps (h : Steps edge (init first) C) : Sound edge first C := by
  induction h with
  | refl => exact sound_init
  | tail _ hstep ih => exact ih.step hstep

/-! ## Along the steps -/

theorem Step.epoch_le (h : Step edge C C') (k : κ) : C.epoch k ≤ C'.epoch k := by
  cases h with
  | issue => exact le_rfl
  | refuse => exact le_rfl
  | use i t => exact epoch_le_change _ t.target k

/-- A ticket stays as it is, but for a pending one's fate; it is used only in its own epoch. -/
theorem Step.ticket (h : Step edge C C') (hi : C.ticket i = some t) :
    ∃ fate, C'.ticket i = some { t with fate := fate } ∧ (t.fate ≠ .pending → fate = t.fate) ∧
      (fate = .used → t.fate = .used ∨ t.epoch = C.epoch t.cell) := by
  have hkept : ∀ {j : ι} {u : Ticket κ ν}, i ≠ j →
      ∃ fate, (C.setTicket j u).ticket i = some { t with fate := fate } ∧
        (t.fate ≠ .pending → fate = t.fate) ∧
        (fate = .used → t.fate = .used ∨ t.epoch = C.epoch t.cell) := by
    intro j u hij
    refine ⟨t.fate, ?_, fun _ => rfl, .inl⟩
    rw [setTicket_of_ne hij, hi]
  cases h with
  | issue j k v hnew =>
    refine hkept ?_
    rintro rfl
    rw [hnew] at hi
    cases hi
  | refuse j u hj hfate =>
    by_cases hij : i = j
    · subst hij
      obtain rfl : t = u := Option.some.inj (hi.symm.trans hj)
      exact ⟨.refused, setTicket_self, fun hne => absurd hfate hne, by exact nofun⟩
    · exact hkept hij
  | use j u hj hfate hepoch =>
    by_cases hij : i = j
    · subst hij
      obtain rfl : t = u := Option.some.inj (hi.symm.trans hj)
      exact ⟨.used, setTicket_self, fun hne => absurd hfate hne, fun _ => .inr hepoch⟩
    · exact hkept hij

/-- **A ticket whose epoch has ended is never used again.** -/
theorem stale_forever (h : Steps edge C C') (hi : C.ticket i = some t) (hfate : t.fate ≠ .used)
    (hstale : t.epoch < C.epoch t.cell) :
    ∃ fate, C'.ticket i = some { t with fate := fate } ∧ fate ≠ .used := by
  suffices h : t.epoch < C'.epoch t.cell ∧
      ∃ fate, C'.ticket i = some { t with fate := fate } ∧ fate ≠ .used from h.2
  induction h with
  | refl => exact ⟨hstale, t.fate, hi, hfate⟩
  | tail _ hstep ih =>
    obtain ⟨hepoch, fate, hticket, hunused⟩ := ih
    obtain ⟨fate', hticket', -, hused⟩ := hstep.ticket hticket
    refine ⟨hepoch.trans_le (hstep.epoch_le t.cell), fate', hticket', fun hfate' => ?_⟩
    rcases hused hfate' with h | h
    · exact hunused h
    · exact hepoch.ne h

end Cells

end PaaRuntime
