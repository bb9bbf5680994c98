import PaaRuntime.WriteLock

/-!
# How long a call goes on

No client waits for another: a part of a call goes on or raises, whatever the others hold. Each step
of its own brings a call nearer to its end (`Client.advance_rank`), but for a step that draws a
temporary name that is taken; so a call ends in as many steps of its own as its rank
(`System.ends_in_turns`), and a demotion lets go of the write lock.
-/

namespace PaaRuntime

open Prog

section

variable [Hashlib]

namespace Client

/-- The most steps that a call still takes, but for temporary names drawn again. -/
def rank : Client → ℕ
  | .propose _ (.running .called) => 12
  | .propose _ (.running (.loaded ..)) => 11
  | .propose _ (.running (.checked ..)) => 10
  | .propose _ (.running (.storing _ _ call)) => call.pc.rank + 2
  | .propose _ (.running (.ready ..)) => 1
  | .approve _ (.running .called) => 2
  | .approve _ (.running (.ready _)) => 1
  | .reject _ (.running .called) => 2
  | .reject _ (.running (.ready _)) => 1
  | .demote _ (.running .called) => 10
  | .demote _ (.running (.loaded ..)) => 9
  | .demote _ (.running (.storing _ _ _ call)) => call.pc.rank + 1
  | .importEvents _ (.running ()) => 1
  | _ => 0

/-- The client's next step draws a temporary name that is taken. -/
def DrawsTaken (outcome : StepOutcome) (sh : Shared) (c : Client) : Prop :=
  ∃ call name, c.call? = some call ∧ call.pc = .mkstemp ∧ outcome = .completes name ∧
    (sh.disk.temps ⟨call.digest, name⟩).isSome

variable {config : RuntimeConfig} {i : ℕ} {io : Io} {outcome : StepOutcome} {sh : Shared}
  {α Λ ρ : Type}

omit [Hashlib] in
/-- A part goes on to its next stage, or the call has ended. -/
theorem run_rank {w : Stage Λ ρ → Client} {x : Py α} {k : α → Stage Λ ρ} {n : ℕ}
    (hk : ∀ a, (w (k a)).rank < n) (hraised : ∀ e, (w (.raised e)).rank < n) :
    (w (sh.run i io x k).2).rank < n := by
  rcases sh.run_cases i io x k with ⟨a, s, -, hr⟩ | ⟨e, s, -, hr⟩ <;> rw [hr]
  · exact hk a
  · exact hraised e

theorem store_rank {w : Stage Λ ρ → Client} {root : String} {call : StoreCall} {k : StoreCall → Λ}
    {m : ℕ} (hm : 0 < m) (hc : (w (.running (k call))).call? = some call)
    (hpc : ∀ r left, call.pc ≠ .finished r left)
    (hk : ∀ call', (w (.running (k call'))).rank = call'.pc.rank + m)
    (hcrashed : (w .crashed).rank = 0) :
    (w (sh.store i root outcome call k).2).rank < call.pc.rank + m ∨
      (w (.running (k call))).DrawsTaken outcome sh := by
  have hstep : (call.step root outcome sh.disk).2.pc.rank < call.pc.rank ∨
      (∃ name, call.pc = .mkstemp ∧ outcome = .completes name ∧
        (sh.disk.temps ⟨call.digest, name⟩).isSome) ∨
      ∃ left, (call.step root outcome sh.disk).2.pc = .crashed left := by
    by_cases hrank : 0 < call.pc.rank
    · exact (call.step_rank root outcome sh.disk hrank).imp_right .inl
    · obtain ⟨data, pc⟩ := call
      cases pc with
      | crashed left => exact .inr (.inr ⟨left, rfl⟩)
      | finished r left => exact absurd rfl (hpc r left)
      | _ => simp [StorePc.rank] at hrank
  rcases hstep with hlt | ⟨name, hmkstemp, hout, htaken⟩ | ⟨left, hleft⟩
  · left
    unfold Shared.store
    dsimp only
    split
    · rw [hcrashed]
      omega
    · rw [hk]
      omega
  · exact .inr ⟨call, name, hc, hmkstemp, hout, htaken⟩
  · left
    simp only [Shared.store, hleft]
    rw [hcrashed]
    omega

theorem propose_rank {args : ProposeArgs} {l : ProposeAt} :
    (Client.propose args (proposeStep config args i io outcome sh l).2).rank <
        (Client.propose args (.running l)).rank ∨
      (Client.propose args (.running l)).DrawsTaken outcome sh := by
  cases l with
  | storing d toPosition call =>
    simp only [proposeStep]
    split
    · exact .inl (run_rank (fun _ => by simp only [rank]; omega) fun _ => by simp only [rank]; omega)
    · left
      simp only [rank]
      omega
    · next hok herror =>
      refine store_rank (w := Client.propose args) Nat.two_pos rfl (fun r left hpc => ?_)
        (fun _ => rfl) rfl
      rcases r with e | ⟨ref, sha⟩
      · exact herror e left hpc
      · exact hok ref sha left hpc
  | _ => exact .inl (run_rank (fun _ => by simp [rank, StorePc.rank]) fun _ => by simp [rank])

theorem demote_rank {args : DemoteArgs} {l : DemoteAt} :
    (Client.demote args (demoteStep config args i io outcome sh l).2).rank <
        (Client.demote args (.running l)).rank ∨
      (Client.demote args (.running l)).DrawsTaken outcome sh := by
  cases l with
  | storing d actor fromPosition call =>
    simp only [demoteStep]
    split
    · exact .inl (run_rank (fun _ => by simp only [rank]; omega) fun _ => by simp only [rank]; omega)
    · exact .inl (run_rank (fun _ => by simp only [rank]; omega) fun _ => by simp only [rank]; omega)
    · next hok herror =>
      refine store_rank (w := Client.demote args) Nat.one_pos rfl (fun r left hpc => ?_)
        (fun _ => rfl) rfl
      rcases r with e | ⟨ref, sha⟩
      · exact herror e left hpc
      · exact hok ref sha left hpc
  | _ => exact .inl (run_rank (fun _ => by simp [rank, StorePc.rank]) fun _ => by simp [rank])

omit [Hashlib] in
theorem rank_pos {c : Client} (h : c.InProgress) : 0 < c.rank := by
  rcases c with _ | ⟨args, stage⟩ | ⟨args, stage⟩ | ⟨args, stage⟩ | ⟨args, stage⟩ |
    ⟨events, stage⟩
  case idle => exact h.elim
  all_goals rcases stage with l | r | e | _ <;> first | exact h.elim | skip
  all_goals cases l <;> simp [rank]

/-- **A step of a call brings it nearer to its end**, unless it draws a name that is taken. -/
theorem advance_rank {c : Client} (h : c.InProgress) :
    (advance config i io outcome sh c).2.rank < c.rank ∨ c.DrawsTaken outcome sh := by
  rcases c with _ | ⟨args, stage⟩ | ⟨args, stage⟩ | ⟨args, stage⟩ | ⟨args, stage⟩ |
    ⟨events, stage⟩
  case idle => exact h.elim
  all_goals rcases stage with l | r | e | _ <;> first | exact h.elim | skip
  case propose.running => exact propose_rank
  case demote.running => exact demote_rank
  case approve.running =>
    cases l <;> exact .inl (run_rank (fun _ => by simp [rank]) fun _ => by simp [rank])
  case reject.running =>
    cases l <;> exact .inl (run_rank (fun _ => by simp [rank]) fun _ => by simp [rank])
  case importEvents.running =>
    exact .inl (run_rank (fun _ => by simp [rank]) fun _ => by simp [rank])

theorem advance_ne_idle {c : Client} (h : c ≠ .idle) :
    (advance config i io outcome sh c).2 ≠ .idle := by
  rcases c with _ | ⟨args, stage⟩ | ⟨args, stage⟩ | ⟨args, stage⟩ | ⟨args, stage⟩ |
    ⟨events, stage⟩
  case idle => exact absurd rfl h
  all_goals rcases stage with l | r | e | _ <;> exact Client.noConfusion

/-- A call that draws a name that is taken stays where it is. -/
theorem DrawsTaken.advance {c : Client} (h : c.DrawsTaken outcome sh) :
    (Client.advance config i io outcome sh c).2 = c := by
  obtain ⟨call, name, hc, hpc, rfl, htaken⟩ := h
  have hstep : ∀ root, call.step root (.completes name) sh.disk = (sh.disk, call) := by
    intro root
    obtain ⟨data, pc⟩ := call
    obtain rfl : pc = .mkstemp := hpc
    simp only [StoreCall.step]
    exact if_pos htaken
  unfold call? at hc
  split at hc
  · cases hc
    simp only [Client.advance, proposeStep, hpc, Shared.store, hstep]
  · cases hc
    simp only [Client.advance, demoteStep, hpc, Shared.store, hstep]
  · cases hc

omit [Hashlib] in
/-- A crash ends a call. -/
theorem crash_ended {c : Client} (i : ℕ) (sh : Shared) (h : c ≠ .idle) :
    (crash i sh c).2 ≠ .idle ∧ ¬(crash i sh c).2.InProgress := by
  rcases c with _ | ⟨args, stage⟩ | ⟨args, stage⟩ | ⟨args, stage⟩ | ⟨args, stage⟩ |
    ⟨events, stage⟩
  case idle => exact absurd rfl h
  all_goals rcases stage with l | r | e | _ <;> exact ⟨Client.noConfusion, id⟩

end Client

namespace System

variable {config : RuntimeConfig} {W W' : System} {i n : ℕ}

/-- Going from one state to another, whatever happens, in `n` steps of client `i`'s own, not counting
those that draw a temporary name that is taken. -/
inductive Turns (config : RuntimeConfig) (i : ℕ) (W : System) : ℕ → System → Prop
  | refl : Turns config i W 0 W
  | turn {n V} (h : Turns config i W n V) (io : Io) (outcome : StepOutcome)
    (hfree : ¬(V.thread i).DrawsTaken outcome V.shared) :
    Turns config i W (n + 1) (next config V (.advance i io outcome))
  | retry {n V} (h : Turns config i W n V) (io : Io) (outcome : StepOutcome)
    (htaken : (V.thread i).DrawsTaken outcome V.shared) :
    Turns config i W n (next config V (.advance i io outcome))
  | other {n V} (h : Turns config i W n V) (a : Action)
    (ha : ∀ io outcome, a ≠ .advance i io outcome) : Turns config i W n (next config V a)

/-- What others do, and a crash, leave a call that has been called as it is, or end it. -/
theorem next_thread_other {a : Action} (ha : ∀ io outcome, a ≠ .advance i io outcome)
    (hcalled : W.thread i ≠ .idle) :
    (next config W a).thread i = W.thread i ∨ (next config W a).thread i ≠ .idle ∧
      ¬((next config W a).thread i).InProgress := by
  cases a with
  | replaceDirectory directory => exact .inl rfl
  | start j call =>
    left
    by_cases hji : i = j
    · subst hji
      rw [next, Threads.act_thread_self]
      rcases ht : W.thread i with _ | _ | _ | _ | _ | _
      case idle => exact absurd ht hcalled
      all_goals rfl
    · exact next_thread_of_ne hji (.inl ⟨call, rfl⟩)
  | advance j io outcome =>
    have hji : i ≠ j := fun h => ha io outcome (by rw [h])
    exact .inl (next_thread_of_ne hji (.inr (.inl ⟨io, outcome, rfl⟩)))
  | crash j =>
    by_cases hji : i = j
    · subst hji
      rw [next, Threads.act_thread_self]
      exact .inr (Client.crash_ended i W.shared hcalled)
    · exact .inl (next_thread_of_ne hji (.inr (.inr rfl)))

theorem turns_rank (hcalled : W.thread i ≠ .idle) (h : Turns config i W n W') :
    W'.thread i ≠ .idle ∧
      ((W'.thread i).InProgress → n + (W'.thread i).rank ≤ (W.thread i).rank) := by
  induction h with
  | refl => exact ⟨hcalled, fun _ => by omega⟩
  | @turn n V h io outcome hfree ih =>
    rw [next, Threads.act_thread_self]
    refine ⟨Client.advance_ne_idle ih.1, fun hin => ?_⟩
    by_cases hbefore : (V.thread i).InProgress
    · have hlt : (Client.advance config i io outcome V.shared (V.thread i)).2.rank <
          (V.thread i).rank := (Client.advance_rank hbefore).resolve_right hfree
      have hle := ih.2 hbefore
      omega
    · rw [Client.advance_ended hbefore] at hin
      exact absurd hin hbefore
  | @retry n V h io outcome htaken ih =>
    rw [next, Threads.act_thread_self, htaken.advance]
    exact ih
  | @other n V h a ha ih =>
    rcases next_thread_other ha ih.1 with hsame | ⟨hne, hended⟩
    · rw [hsame]
      exact ih
    · exact ⟨hne, fun hin => absurd hin hended⟩

/-- **A call ends in bounded time of its own.** Whatever the others do, a call is over when it has
taken as many steps as its rank: twelve for one that has just been called, and eight for a demotion
that has just begun to store its evidence with the write lock held. -/
theorem ends_in_turns (hcalled : W.thread i ≠ .idle) (h : Turns config i W n W')
    (hn : (W.thread i).rank ≤ n) : ¬(W'.thread i).InProgress := by
  intro hin
  have hle := (turns_rank hcalled h).2 hin
  have hpos := Client.rank_pos hin
  omega

end System

end

open Scenario in
/-- Ten steps in which its file system only fails end the demotion. -/
theorem System.ends_in_turns_failing :
    ∃ W, @System.Turns hashing config 0
        (@System.next hashing config (System.init demotable) startsDemotion) 10 W ∧
      ¬(W.thread 0).InProgress := by
  have hturns : ∀ n, ∃ W, @System.Turns hashing config 0
      (@System.next hashing config (System.init demotable) startsDemotion) n W := by
    intro n
    induction n with
    | zero => exact ⟨_, @System.Turns.refl hashing _ _ _⟩
    | succ n ih =>
      obtain ⟨W, hW⟩ := ih
      refine ⟨_, @System.Turns.turn hashing _ _ _ _ _ hW (io 1) (.raises .osError 0) ?_⟩
      rintro ⟨call, name, -, -, h, -⟩
      cases h
  obtain ⟨W, hW⟩ := hturns 10
  refine ⟨W, hW, @System.ends_in_turns hashing _ _ _ _ _ (fun h => ?_) hW ?_⟩
  · cases h
  · exact le_refl 10

end PaaRuntime
