import PaaRuntime.Contexts
import PaaRuntime.Histories

/-!
# The write lock

Clients of one store wait for each other at one place only, the write lock. Where the closing
statement of every context goes through (`System.Closing`), the lock is held exactly by the demotion
that is storing its evidence (`System.lock_iff_storing`). Where one does not, the lock stays with a
call that has ended, and no row is committed any more (`System.leaked_lock`).
-/

namespace PaaRuntime

open Prog

/-! ## A part of a call -/

section

variable {α β : Type} {s : Session} {immediate : Bool} {body : Py α}

instance decidableClosingGoesThrough (r : Except PyError α × Session) :
    Decidable (ClosingGoesThrough r) :=
  match r with
  | (.ok _, _) => inferInstanceAs (Decidable (_ ∧ _))
  | (.error _, _) => inferInstanceAs (Decidable (_ = _))

/-- If the context is entered, its closing statement goes through. -/
def BlockCloses (immediate : Bool) (body : Py α) (s : Session) : Prop :=
  match begin_ immediate s with
  | (.ok _, s₀) => ClosingGoesThrough (body s₀)
  | (.error _, _) => True

/-- If the body raises, the ROLLBACK goes through. -/
def RollbackCloses : Except PyError α × Session → Prop
  | (.ok _, _) => True
  | (.error _, s) => s.io.faults.head = none

/-- A closing statement that goes through leaves no transaction open. -/
theorem closing_working (h : ClosingGoesThrough (body s)) :
    (closing body s).2.world.working = none := by
  rw [closing_snd]
  rcases hb : body s with ⟨e | a, s₁⟩ <;> rw [hb] at h
  · show (rollback s₁).2.world.working = none
    rw [rollback_of_quiet h]
    rfl
  · show (commit s₁).2.world.working = none
    rw [commit_of_quiet h.1]
    rcases hc : s₁.io.commits.head with _ | _ | _
    · rfl
    · rfl
    · exact absurd hc h.2

/-- One that fails raises, and leaves the transaction open. -/
theorem closing_of_not (h : ¬ClosingGoesThrough (body s))
    (hopen : (body s).2.world.working ≠ none) :
    ∃ e s', closing body s = (.error e, s') ∧ s'.world.working ≠ none := by
  have hworking : (closing body s).2.world.working = (body s).2.world.working := by
    rw [closing_snd]
    rcases hb : body s with ⟨e | a, s₁⟩ <;> rw [hb] at h
    · show (rollback s₁).2.world.working = s₁.world.working
      obtain ⟨f, hf⟩ := Option.ne_none_iff_exists'.1 h
      rw [rollback_of_fault hf]
    · show (commit s₁).2.world.working = s₁.world.working
      rcases hf : s₁.io.faults.head with _ | f
      · have hc : s₁.io.commits.head = .refused true := of_not_not fun hc => h ⟨hf, hc⟩
        rw [commit_of_quiet hf, hc]
      · rw [commit_of_fault hf]
  rcases hc : closing body s with ⟨e | a, s'⟩ <;> rw [hc] at hworking
  · exact ⟨e, s', rfl, hworking ▸ hopen⟩
  · -- a context that returns has committed
    obtain ⟨s₁, -, hw⟩ := closing_ok hc
    rw [hw] at hworking
    exact absurd hworking.symm hopen

theorem block_working (hnone : s.world.working = none) (h : BlockCloses immediate body s) :
    ((begin_ immediate >>= fun _ => closing body) s).2.world.working = none := by
  unfold BlockCloses at h
  rw [bind_run]
  rcases hb : begin_ immediate s with ⟨e | u, s₀⟩ <;> rw [hb] at h
  · rw [begin_raisesClean immediate s e s₀ hb]
    exact hnone
  · exact closing_working h

/-- A context that is entered and not closed raises with its transaction open. -/
theorem block_of_not (hbody : Inside body) (h : ¬BlockCloses immediate body s) :
    ∃ e s', (begin_ immediate >>= fun _ => closing body) s = (.error e, s') ∧
      s'.world.working ≠ none := by
  unfold BlockCloses at h
  rw [bind_run]
  rcases hb : begin_ immediate s with ⟨e | u, s₀⟩ <;> rw [hb] at h
  · exact absurd trivial h
  · obtain ⟨-, -, hw₀⟩ := begin_ok hb
    obtain ⟨-, written, hwritten, -⟩ := hbody s₀ s.world.committed (by rw [hw₀]; rfl)
    exact closing_of_not h (by rw [hwritten]; exact Option.some_ne_none _)

theorem bind_of_error {x : Py α} {f : α → Py β}
    (h : ∃ e s', x s = (.error e, s') ∧ s'.world.working ≠ none) :
    ∃ e s', (x >>= f) s = (.error e, s') ∧ s'.world.working ≠ none := by
  obtain ⟨e, s', hx, hopen⟩ := h
  exact ⟨e, s', bind_error.2 (.inl hx), hopen⟩

theorem rollbackOnError_of_not (h : ¬RollbackCloses (body s))
    (hopen : (body s).2.world.working ≠ none) :
    ∃ e s', rollbackOnError body s = (.error e, s') ∧ s'.world.working ≠ none := by
  rcases hb : body s with ⟨e | a, s₁⟩ <;> rw [hb] at h hopen
  · obtain ⟨f, hf⟩ := Option.ne_none_iff_exists'.1 h
    have hsnd := rollbackOnError_of_error hb
    rw [rollback_of_fault hf] at hsnd
    rcases hr : rollbackOnError body s with ⟨e' | a, s₂⟩ <;> rw [hr] at hsnd
    · obtain rfl := hsnd
      exact ⟨e', _, rfl, hopen⟩
    · exact absurd hr (rollbackOnError_ne_ok hb)
  · exact absurd trivial h

/-- What follows a part and leaves the world alone leaves the transaction as it is. -/
theorem bind_working {x : Py α} {f : α → Py β} (hf : ∀ a, Keeps Session.world (f a))
    (h : (x s).2.world.working = none) : ((x >>= f) s).2.world.working = none := by
  rw [bind_run]
  rcases hx : x s with ⟨e | a, s₁⟩ <;> rw [hx] at h
  · exact h
  · have hw := hf a s₁
    exact (congrArg World.working hw).trans h

theorem rollbackOnError_working {e : PyError} {s' : Session} (h : RollbackCloses (body s))
    (hraised : rollbackOnError body s = (.error e, s')) : s'.world.working = none := by
  unfold rollbackOnError at hraised
  rw [tryCatch_run] at hraised
  rcases hb : body s with ⟨e₁ | a, s₁⟩ <;> rw [hb] at h hraised
  · have hfirst : s₁.io.faults.head = none := h
    simp only [bind_run, rollback_of_quiet hfirst, throw_run, Prod.mk.injEq] at hraised
    rw [← hraised.2]
    rfl
  · cases hraised

end

/-! ## The bodies of the contexts -/

namespace Inside

variable {α : Type}

theorem lift (r : Except PyError α) : Inside (liftM r : Py α) := of_keeps (Keeps.lift r)

theorem forEach {f : α → Py Unit} (hf : ∀ a, Inside (f a)) (l : List α) :
    Inside (Prog.forEach f l) := by
  induction l with
  | nil => exact pure ()
  | cons a l ih => exact (hf a).bind fun _ => ih

theorem recordEvent (row : String → String → AutonomyEvent) : Inside (PaaRuntime.recordEvent row) :=
  (of_keeps keeps_world_newEventId).bind fun _ =>
    (of_keeps keeps_world_newCreatedAt).bind fun _ => insertAutonomyEvent _

theorem proposeBlock (p : Draft) : Inside (PaaRuntime.proposeBlock p) :=
  (of_keeps (keeps_world_foldCurrentPosition _ _)).bind fun _ => (lift _).bind fun _ =>
    (recordEvent _).bind fun _ => query _

theorem approveBlock [Hashlib] (config : RuntimeConfig) (args : MotionArgs) (actor : String) :
    Inside (PaaRuntime.approveBlock config args actor) := by
  refine (query _).bind fun events => (lift _).bind fun p => ?_
  split
  · exact throw _
  · exact throw _
  · split_ifs
    · exact (lift _).bind fun _ => pure _
    · exact throw _
  · exact throw _
  · exact throw _
  · exact (of_keeps (keeps_world_approveChecks _ _)).bind fun _ =>
      (forEach (fun _ => recordEvent _) _).bind fun _ => (query _).bind fun _ => pure _

theorem rejectBlock (args : MotionArgs) (actor : String) :
    Inside (PaaRuntime.rejectBlock args actor) := by
  refine (query _).bind fun events => (lift _).bind fun p => ?_
  split
  · split_ifs
    · exact (lift _).bind fun _ => pure _
    · exact throw _
  · exact throw _
  · exact (recordEvent _).bind fun _ => (query _).bind fun _ => pure _
  · exact throw _

theorem demoteRecord (args : DemoteArgs) (d : PaaTaskDeclaration) (actor : String)
    (fromPosition : AutonomyPosition) (ref sha : String) :
    Inside (PaaRuntime.demoteRecord args d actor fromPosition ref sha) :=
  (of_keeps keeps_world_newMotionId).bind fun _ =>
    (forEach (fun _ => recordEvent _) _).bind fun _ => query _

theorem importEvent (next : Except PyError EventMapping) : Inside (PaaRuntime.importEvent next) :=
  (lift _).bind fun _ => (lift _).bind fun _ => insertAutonomyEvent _

end Inside

/-! ## What a part does to the lock -/

namespace Shared

variable {α Λ ρ : Type} {sh : Shared} {i j : ℕ} {io : Io}

theorem release_lock (h : (sh.release i).lock = some j) : sh.lock = some j := by
  unfold release at h
  dsimp only at h
  split_ifs at h with hmine
  exact h

theorem release_lock_ne : (sh.release i).lock ≠ some i := by
  unfold release
  dsimp only
  split_ifs with hmine
  · exact (Option.some_ne_none i).symm
  · exact hmine

/-- A part leaves the lock where it is, takes it for its own client, or lets go of its own. -/
theorem after_lock {w : World} (h : (sh.after i w).lock = some j) :
    sh.lock = some j ∨ j = i ∧ w.working ≠ none := by
  unfold after at h
  dsimp only at h
  split_ifs at h with hopen
  · rcases hlock : sh.lock with _ | k
    · rw [hlock] at h
      exact .inr ⟨(Option.some.inj h).symm, Option.isSome_iff_ne_none.1 hopen⟩
    · rw [hlock] at h
      exact .inl h
  · exact .inl (release_lock h)

/-- A client whose transaction is closed does not hold the lock. -/
theorem after_lock_ne {w : World} (h : w.working = none) : (sh.after i w).lock ≠ some i := by
  unfold after
  simp only [h, Option.isSome_none, Bool.false_eq_true, if_false]
  exact release_lock_ne

/-- A part that raises with its transaction open keeps the lock from the others. -/
theorem run_leaks {x : Py α} {k : α → Stage Λ ρ} (hothers : ∀ j, sh.lock = some j → j = i)
    (h : ∃ e s', x (sh.session i io) = (.error e, s') ∧ s'.world.working ≠ none) :
    (sh.run i io x k).1.lock = some i ∧ ∃ e, (sh.run i io x k).2 = .raised e := by
  obtain ⟨e, s', hx, hopen⟩ := h
  rcases sh.run_cases i io x k with ⟨a, s, hx', -⟩ | ⟨e', s, hx', hr⟩ <;> rw [hx] at hx'
  · cases hx'
  · cases hx'
    rw [hr]
    refine ⟨?_, e, rfl⟩
    unfold after
    dsimp only
    rw [if_pos (Option.isSome_iff_ne_none.2 hopen)]
    rcases hlock : sh.lock with _ | j
    · rfl
    · rw [hothers j hlock]
      rfl

theorem session_working_of_ne (h : sh.lock ≠ some i) :
    (sh.session i io).world.working = none := if_neg h

/-- A part takes the lock from nobody. -/
theorem run_lock {x : Py α} {k : α → Stage Λ ρ} (hji : j ≠ i)
    (h : (sh.run i io x k).1.lock = some j) : sh.lock = some j := by
  rcases sh.run_cases i io x k with ⟨a, s, -, hr⟩ | ⟨e, s, -, hr⟩ <;> rw [hr] at h
  all_goals exact (after_lock h).resolve_right fun hj => hji hj.1

/-- A part that leaves no transaction open leaves the lock to others. -/
theorem run_lock_ne {x : Py α} {k : α → Stage Λ ρ}
    (h : (x (sh.session i io)).2.world.working = none) : (sh.run i io x k).1.lock ≠ some i := by
  rcases sh.run_cases i io x k with ⟨a, s, hx, hr⟩ | ⟨e, s, hx, hr⟩ <;> rw [hx] at h <;> rw [hr]
  all_goals exact after_lock_ne h

/-- A part that leaves the world alone leaves the lock alone. -/
theorem run_lock_of_keeps {x : Py α} (hx : Keeps Session.world x) (k : α → Stage Λ ρ) :
    (sh.run i io x k).1.lock = sh.lock := by
  rcases sh.run_cases i io x k with ⟨a, s, h, hr⟩ | ⟨e, s, h, hr⟩ <;> rw [hr]
  all_goals
    have hw := hx.eq_of_run h
    rw [hw, after_session]

end Shared

/-! ## Clients -/

section

variable [Hashlib]

namespace Client

/-- The client is a demotion that stores its evidence. -/
def Storing : Client → Prop
  | .demote _ (.running (.storing ..)) => True
  | _ => False

/-- The client's call has raised. -/
def Raised : Client → Prop
  | .propose _ (.raised _) => True
  | .approve _ (.raised _) => True
  | .reject _ (.raised _) => True
  | .demote _ (.raised _) => True
  | .importEvents _ (.raised _) => True
  | _ => False

/-- The closing statement of the context that the next part of client `i`'s call leaves, if it leaves
one, goes through. -/
def Closing (config : RuntimeConfig) (i : ℕ) (io : Io) (sh : Shared) : Client → Prop
  | .propose _ (.running (.ready _ draft)) =>
    BlockCloses true (proposeBlock draft) (sh.session i io)
  | .approve args (.running (.ready actor)) =>
    BlockCloses true (approveBlock config args actor) (sh.session i io)
  | .reject args (.running (.ready actor)) =>
    BlockCloses true (rejectBlock args actor) (sh.session i io)
  | .demote args (.running (.loaded d actor)) =>
    match begin_ true (sh.session i io) with
    | (.ok _, s₀) => RollbackCloses (demoteResolve config args d actor s₀)
    | (.error _, _) => True
  | .demote args (.running (.storing d actor fromPosition call)) =>
    match call.pc with
    | .finished (.ok (ref, sha)) _ =>
      ClosingGoesThrough (demoteRecord args d actor fromPosition ref sha (sh.session i io))
    | .finished (.error _) _ => io.faults.head = none
    | _ => True
  | .importEvents events (.running ()) =>
    BlockCloses false (forEach importEvent events) (sh.session i io)
  | _ => True

variable {config : RuntimeConfig} {i j : ℕ} {io : Io} {outcome : StepOutcome} {sh : Shared}
  {α Λ ρ : Type}

theorem store_lock {root : String} {call : StoreCall} {k : StoreCall → Λ}
    (h : (sh.store i root outcome call k : Shared × Stage Λ ρ).1.lock = some j) :
    sh.lock = some j := by
  unfold Shared.store at h
  dsimp only at h
  split at h
  · exact Shared.release_lock h
  · exact h

/-- Storing goes on, or ends with a crash that lets go of the lock. -/
theorem store_stage {root : String} {call : StoreCall} {k : StoreCall → Λ}
    {r : Shared × Stage Λ ρ} (hr : sh.store i root outcome call k = r) :
    (∃ call', r.2 = .running (k call')) ∨ r.2 = .crashed ∧ r.1.lock ≠ some i := by
  subst hr
  unfold Shared.store
  dsimp only
  split
  · exact .inr ⟨rfl, Shared.release_lock_ne⟩
  · exact .inl ⟨_, rfl⟩

/-! ## What a step does to the lock -/

/-- A step of one client gives the lock to no other. -/
theorem advance_lock_of_ne {c : Client} (hji : j ≠ i)
    (h : (advance config i io outcome sh c).1.lock = some j) : sh.lock = some j := by
  rcases c with _ | ⟨args, stage⟩ | ⟨args, stage⟩ | ⟨args, stage⟩ | ⟨args, stage⟩ |
    ⟨events, stage⟩
  case idle => exact h
  all_goals rcases stage with l | r | e | _
  all_goals try exact h
  case propose.running =>
    cases l with
    | storing d toPosition call =>
      simp only [advance, proposeStep] at h
      split at h
      · exact Shared.run_lock hji h
      · exact h
      · exact store_lock h
    | _ => exact Shared.run_lock hji h
  case demote.running =>
    cases l with
    | storing d actor fromPosition call =>
      simp only [advance, demoteStep] at h
      split at h
      · exact Shared.run_lock hji h
      · exact Shared.run_lock hji h
      · exact store_lock h
    | _ => exact Shared.run_lock hji h
  case approve.running => cases l <;> exact Shared.run_lock hji h
  case reject.running => cases l <;> exact Shared.run_lock hji h
  case importEvents.running => exact Shared.run_lock hji h

theorem propose_lock {args : ProposeArgs} {l : ProposeAt} (hfree : sh.lock ≠ some i)
    (hclosing : (Client.propose args (.running l)).Closing config i io sh) :
    (proposeStep config args i io outcome sh l).1.lock ≠ some i := by
  cases l with
  | called =>
    rw [proposeStep, Shared.run_lock_of_keeps (keeps_world_proposeLoad config args)]
    exact hfree
  | loaded d toPosition =>
    rw [proposeStep, Shared.run_lock_of_keeps (keeps_world_proposeCheck d args.scope toPosition)]
    exact hfree
  | checked d toPosition =>
    rw [proposeStep, Shared.run_lock_of_keeps (keeps_world_proposeRead args.evidencePath)]
    exact hfree
  | storing d toPosition call =>
    unfold proposeStep
    dsimp only
    split
    · rw [Shared.run_lock_of_keeps (keeps_world_proposeActor config args.actor)]
      exact hfree
    · exact hfree
    · exact fun h => hfree (store_lock h)
  | ready data draft =>
    have hblock := block_working (Shared.session_working_of_ne hfree) hclosing
    exact Shared.run_lock_ne (bind_working (fun _ => Keeps.lift _) hblock)

theorem approve_lock {args : MotionArgs} {l : MotionAt} (hfree : sh.lock ≠ some i)
    (hclosing : (Client.approve args (.running l)).Closing config i io sh) :
    (approveStep config args i io sh l).1.lock ≠ some i := by
  cases l with
  | called =>
    rw [approveStep, Shared.run_lock_of_keeps (keeps_world_reasonedActor _ _ _ _)]
    exact hfree
  | ready actor =>
    have hblock := block_working (Shared.session_working_of_ne hfree) hclosing
    exact Shared.run_lock_ne (bind_working (fun _ => Keeps.lift _) hblock)

theorem reject_lock {args : MotionArgs} {l : MotionAt} (hfree : sh.lock ≠ some i)
    (hclosing : (Client.reject args (.running l)).Closing config i io sh) :
    (rejectStep config args i io sh l).1.lock ≠ some i := by
  cases l with
  | called =>
    rw [rejectStep, Shared.run_lock_of_keeps (keeps_world_reasonedActor _ _ _ _)]
    exact hfree
  | ready actor =>
    have hblock := block_working (Shared.session_working_of_ne hfree) hclosing
    exact Shared.run_lock_ne (bind_working (fun _ => Keeps.lift _) hblock)

/-- A demotion keeps the lock only to store, or to go on storing. -/
theorem demote_lock {args : DemoteArgs} {l : DemoteAt}
    (hmine : sh.lock = some i → (Client.demote args (.running l)).Storing)
    (hclosing : (Client.demote args (.running l)).Closing config i io sh)
    (h : (demoteStep config args i io outcome sh l).1.lock = some i) :
    (Client.demote args (demoteStep config args i io outcome sh l).2).Storing := by
  cases l with
  | called =>
    rw [demoteStep, Shared.run_lock_of_keeps (keeps_world_demoteLoad config args)] at h
    exact (hmine h).elim
  | loaded d actor =>
    have hnone : (sh.session i io).world.working = none :=
      Shared.session_working_of_ne fun hlock => hmine hlock
    have hraised : ∀ e s, demoteOpen config args d actor (sh.session i io) = (.error e, s) →
        s.world.working = none := by
      intro e s hopen
      rcases bind_error.1 hopen with hb | ⟨u, s₀, hb, hbody⟩
      · rw [begin_raisesClean true _ e s hb]
        exact hnone
      · simp only [Closing, hb] at hclosing
        exact rollbackOnError_working hclosing hbody
    simp only [demoteStep] at h ⊢
    rcases hopen : demoteOpen config args d actor (sh.session i io) with ⟨e | r, s⟩
    · refine absurd h (Shared.run_lock_ne ?_)
      rw [hopen]
      exact hraised e s hopen
    · unfold Shared.run
      rw [hopen]
      trivial
  | storing d actor fromPosition call =>
    simp only [demoteStep] at h ⊢
    simp only [Closing] at hclosing
    split at hclosing
    · next ref sha left hpc =>
      simp only [hpc] at h
      exact absurd h (Shared.run_lock_ne
        (bind_working (fun _ => Keeps.lift _) (closing_working hclosing)))
    · next e left hpc =>
      simp only [hpc] at h
      refine absurd h (Shared.run_lock_ne ?_)
      rcases hraise : rollbackOnError (throw e : Py Unit) (sh.session i io) with ⟨e' | u, s⟩
      · have hrollback : RollbackCloses ((throw e : Py Unit) (sh.session i io)) := hclosing
        exact rollbackOnError_working hrollback hraise
      · exact absurd (rollbackOnError_ok.1 hraise) throw_ok
    · next hok herror =>
      split at h
      · next ref sha left hpc => exact (hok ref sha left hpc).elim
      · next e left hpc => exact (herror e left hpc).elim
      · generalize hr : sh.store i config.evidenceRoot outcome call
          (DemoteAt.storing d actor fromPosition) = r at h ⊢
        rcases store_stage hr with ⟨call', hgoes⟩ | ⟨-, hne⟩
        · rw [hgoes]
          trivial
        · exact absurd h hne

/-- **The lock after a step** whose closing statement goes through. -/
theorem advance_lock {c : Client} (hmine : sh.lock = some i → c.Storing)
    (hclosing : c.Closing config i io sh)
    (h : (advance config i io outcome sh c).1.lock = some i) :
    (advance config i io outcome sh c).2.Storing := by
  rcases c with _ | ⟨args, stage⟩ | ⟨args, stage⟩ | ⟨args, stage⟩ | ⟨args, stage⟩ |
    ⟨events, stage⟩
  case idle => exact hmine h
  all_goals rcases stage with l | r | e | _
  all_goals try exact hmine h
  case propose.running =>
    exact absurd h (propose_lock hmine hclosing)
  case approve.running => exact absurd h (approve_lock hmine hclosing)
  case reject.running => exact absurd h (reject_lock hmine hclosing)
  case demote.running => exact demote_lock hmine hclosing h
  case importEvents.running =>
    have hblock := block_working (Shared.session_working_of_ne hmine) hclosing
    exact absurd h (Shared.run_lock_ne hblock)

theorem propose_leaks {args : ProposeArgs} {l : ProposeAt} (hothers : ∀ j, sh.lock = some j → j = i)
    (hclosing : ¬(Client.propose args (.running l)).Closing config i io sh) :
    (proposeStep config args i io outcome sh l).1.lock = some i ∧
      ∃ e, (proposeStep config args i io outcome sh l).2 = .raised e := by
  cases l with
  | ready data draft =>
    exact Shared.run_leaks hothers (bind_of_error (block_of_not (.proposeBlock draft) hclosing))
  | _ => exact absurd trivial hclosing

theorem approve_leaks {args : MotionArgs} {l : MotionAt} (hothers : ∀ j, sh.lock = some j → j = i)
    (hclosing : ¬(Client.approve args (.running l)).Closing config i io sh) :
    (approveStep config args i io sh l).1.lock = some i ∧
      ∃ e, (approveStep config args i io sh l).2 = .raised e := by
  cases l with
  | ready actor =>
    exact Shared.run_leaks hothers
      (bind_of_error (block_of_not (.approveBlock config args actor) hclosing))
  | _ => exact absurd trivial hclosing

theorem reject_leaks {args : MotionArgs} {l : MotionAt} (hothers : ∀ j, sh.lock = some j → j = i)
    (hclosing : ¬(Client.reject args (.running l)).Closing config i io sh) :
    (rejectStep config args i io sh l).1.lock = some i ∧
      ∃ e, (rejectStep config args i io sh l).2 = .raised e := by
  cases l with
  | ready actor =>
    exact Shared.run_leaks hothers (bind_of_error (block_of_not (.rejectBlock args actor) hclosing))
  | _ => exact absurd trivial hclosing

theorem demote_leaks {args : DemoteArgs} {l : DemoteAt} (hothers : ∀ j, sh.lock = some j → j = i)
    (hstoring : (Client.demote args (.running l)).Storing → sh.lock = some i)
    (hclosing : ¬(Client.demote args (.running l)).Closing config i io sh) :
    (demoteStep config args i io outcome sh l).1.lock = some i ∧
      ∃ e, (demoteStep config args i io outcome sh l).2 = .raised e := by
  cases l with
  | called => exact absurd trivial hclosing
  | loaded d actor =>
    refine Shared.run_leaks hothers ?_
    simp only [Closing] at hclosing
    rcases hb : begin_ true (sh.session i io) with ⟨e | u, s₀⟩ <;> simp only [hb] at hclosing
    · exact absurd trivial hclosing
    · obtain ⟨-, -, hw₀⟩ := begin_ok hb
      obtain ⟨e, s', hraised, hopen⟩ := rollbackOnError_of_not hclosing (by
        rw [keeps_world_demoteResolve config args d actor s₀, hw₀]
        exact Option.some_ne_none _)
      exact ⟨e, s', bind_error.2 (.inr ⟨u, s₀, hb, hraised⟩), hopen⟩
  | storing d actor fromPosition call =>
    have hworking : (sh.session i io).world.working = some sh.table :=
      Shared.session_working (hstoring trivial)
    simp only [Closing] at hclosing
    split at hclosing
    · next ref sha left hpc =>
      simp only [demoteStep, hpc]
      obtain ⟨-, written, hwritten, -⟩ :=
        Inside.demoteRecord args d actor fromPosition ref sha _ _ hworking
      have hopen := hwritten ▸ Option.some_ne_none (sh.table ++ written)
      exact Shared.run_leaks hothers (bind_of_error (closing_of_not hclosing hopen))
    · next e left hpc =>
      simp only [demoteStep, hpc]
      have hrollback : ¬RollbackCloses ((throw e : Py Unit) (sh.session i io)) := hclosing
      refine Shared.run_leaks hothers (rollbackOnError_of_not hrollback ?_)
      show (sh.session i io).world.working ≠ none
      rw [hworking]
      exact Option.some_ne_none _
    · exact absurd trivial hclosing

/-- **The lock after a step** whose closing statement does not: the call has raised, and keeps it. -/
theorem advance_leaks {c : Client} (hothers : ∀ j, sh.lock = some j → j = i)
    (hstoring : c.Storing → sh.lock = some i) (hclosing : ¬c.Closing config i io sh) :
    (advance config i io outcome sh c).1.lock = some i ∧
      (advance config i io outcome sh c).2.Raised := by
  have hraised : ∀ {Λ ρ : Type} {stage : Stage Λ ρ} {w : Stage Λ ρ → Client},
      (∀ e, (w (.raised e)).Raised) → (∃ e, stage = .raised e) → (w stage).Raised := by
    rintro Λ ρ _ w hw ⟨e, rfl⟩
    exact hw e
  rcases c with _ | ⟨args, stage⟩ | ⟨args, stage⟩ | ⟨args, stage⟩ | ⟨args, stage⟩ |
    ⟨events, stage⟩
  case idle => exact absurd trivial hclosing
  all_goals rcases stage with l | r | e | _
  all_goals try exact absurd trivial hclosing
  case propose.running =>
    exact (propose_leaks hothers hclosing).imp_right (hraised fun _ => trivial)
  case approve.running =>
    exact (approve_leaks hothers hclosing).imp_right (hraised fun _ => trivial)
  case reject.running =>
    exact (reject_leaks hothers hclosing).imp_right (hraised fun _ => trivial)
  case demote.running =>
    exact (demote_leaks hothers hstoring hclosing).imp_right (hraised fun _ => trivial)
  case importEvents.running =>
    have hbody : Inside (forEach importEvent events) := .forEach .importEvent events
    exact (Shared.run_leaks hothers (block_of_not hbody hclosing)).imp_right
      (hraised fun _ => trivial)

omit [Hashlib] in
theorem start_fst (call : Call) (sh : Shared) (c : Client) : (start call sh c).1 = sh := by
  cases c <;> rfl

omit [Hashlib] in
theorem crash_fst (i : ℕ) (sh : Shared) (c : Client) :
    c = .idle ∧ (crash i sh c).1 = sh ∨ (crash i sh c).1 = sh.release i := by
  cases c with
  | idle => exact .inl ⟨rfl, rfl⟩
  | _ => exact .inr rfl

/-- A call that has ended takes no more steps. -/
theorem advance_ended {c : Client} (h : ¬c.InProgress) :
    advance config i io outcome sh c = (sh, c) := by
  rcases c with _ | ⟨args, stage⟩ | ⟨args, stage⟩ | ⟨args, stage⟩ | ⟨args, stage⟩ |
    ⟨events, stage⟩
  case idle => rfl
  all_goals rcases stage with l | r | e | _ <;> first | rfl | exact absurd trivial h

omit [Hashlib] in
theorem Raised.ended {c : Client} (h : c.Raised) : ¬c.InProgress := by
  rcases c with _ | ⟨args, stage⟩ | ⟨args, stage⟩ | ⟨args, stage⟩ | ⟨args, stage⟩ |
    ⟨events, stage⟩
  case idle => exact id
  all_goals rcases stage with l | r | e | _ <;> first | exact id | exact h.elim

omit [Hashlib] in
theorem Raised.start {c : Client} (h : c.Raised) (call : Call) :
    Client.start call sh c = (sh, c) := by
  cases c with
  | idle => exact h.elim
  | _ => rfl

/-- A call that has raised has committed nothing in its last step. -/
theorem Raised.not_commits {c c' : Client} {written : List AutonomyEvent} (h : c'.Raised) :
    ¬Commits config sh c c' written := by
  intro hcommits
  cases hcommits <;> exact h

end Client

/-! ## The system -/

namespace System

variable {config : RuntimeConfig} {W W' : System} {directory : Directory} {i : ℕ}

/-- The closing statement of the context that the action leaves, if it leaves one, goes through. -/
def Closing (config : RuntimeConfig) (W : System) : Action → Prop
  | .advance i io _ => (W.thread i).Closing config i io W.shared
  | _ => True

/-- Only a demotion that stores its evidence holds the lock. -/
def HeldToStore (W : System) : Prop := ∀ i, W.shared.lock = some i → (W.thread i).Storing

omit [Hashlib] in
/-- An action of client `i` that keeps the lock from the others keeps it where it is allowed. -/
theorem heldToStore_act (h : HeldToStore W) {f : Shared → Client → Shared × Client}
    (hothers : ∀ j, j ≠ i → (f W.shared (W.thread i)).1.lock = some j → W.shared.lock = some j)
    (hown : (f W.shared (W.thread i)).1.lock = some i → (f W.shared (W.thread i)).2.Storing) :
    HeldToStore (W.act i f) := by
  intro j hj
  by_cases hji : j = i
  · subst hji
    rw [Threads.act_thread_self]
    exact hown hj
  · rw [Threads.act_thread_of_ne W f hji]
    exact h j (hothers j hji hj)

theorem heldToStore_next (h : HeldToStore W) {a : Action} (ha : Closing config W a) :
    HeldToStore (next config W a) := by
  cases a with
  | replaceDirectory directory => exact h
  | start i call =>
    refine heldToStore_act h (fun j _ hj => ?_) fun hi => ?_
    · rwa [Client.start_fst] at hj
    · rw [Client.start_fst] at hi
      have hown := h i hi
      cases ht : W.thread i with
      | idle =>
        rw [ht] at hown
        exact hown.elim
      | _ =>
        rw [ht] at hown
        exact hown
  | advance i io outcome =>
    exact heldToStore_act h (fun j hji hj => Client.advance_lock_of_ne hji hj)
      (Client.advance_lock (h i) ha)
  | crash i =>
    rcases Client.crash_fst i W.shared (W.thread i) with ⟨hidle, hsame⟩ | hreleased
    · refine heldToStore_act h (fun j _ hj => hsame ▸ hj) fun hi => ?_
      rw [hsame] at hi
      have hown := h i hi
      rw [hidle] at hown
      exact hown.elim
    · refine heldToStore_act h (fun j _ hj => ?_) fun hi => ?_
      · rw [hreleased] at hj
        exact Shared.release_lock hj
      · rw [hreleased] at hi
        exact absurd hi Shared.release_lock_ne

theorem storing_lock (hinv : Inv (fun _ => True) W) (hstoring : (W.thread i).Storing) :
    W.shared.lock = some i := by
  have hknows := (hinv.own i).knows
  rcases ht : W.thread i with _ | _ | _ | _ | ⟨args, stage⟩ | _ <;> rw [ht] at hstoring hknows
  case demote =>
    rcases stage with l | _ | _ | _
    · cases l with
      | storing => exact hknows.2.1
      | _ => exact hstoring.elim
    all_goals exact hstoring.elim
  all_goals exact hstoring.elim

/-- While a call that has raised holds the lock, nobody commits. -/
theorem stuck_next (hinv : Inv (fun _ => True) W) (hlock : W.shared.lock = some i)
    (hraised : (W.thread i).Raised) {a : Action} (ha : a ≠ .crash i) :
    (next config W a).shared.lock = some i ∧ ((next config W a).thread i).Raised ∧
      (next config W a).shared.table = W.shared.table := by
  cases a with
  | replaceDirectory directory => exact ⟨hlock, hraised, rfl⟩
  | start j call =>
    have hshared : (next config W (.start j call)).shared = W.shared :=
      Client.start_fst call W.shared (W.thread j)
    rw [hshared]
    refine ⟨hlock, ?_, rfl⟩
    by_cases hji : j = i
    · subst hji
      rw [next, Threads.act_thread_self, hraised.start]
      exact hraised
    · rw [next_thread_of_ne (Ne.symm hji) (.inl ⟨call, rfl⟩)]
      exact hraised
  | advance j io outcome =>
    by_cases hji : j = i
    · subst hji
      have hsame : (next config W (.advance j io outcome)).shared = W.shared :=
        congrArg Prod.fst (Client.advance_ended hraised.ended)
      rw [hsame, next, Threads.act_thread_self, Client.advance_ended hraised.ended]
      exact ⟨hlock, hraised, rfl⟩
    · rw [next_thread_of_ne (Ne.symm hji) (.inr (.inl ⟨io, outcome, rfl⟩))]
      have hadv := Client.advance_spec config hinv.shared (hinv.own j) io outcome
      exact ⟨hadv.lock i (Ne.symm hji) hlock, hraised, table_of_lock hinv hlock hji⟩
  | crash j =>
    have hji : i ≠ j := fun h => ha (congrArg Action.crash h.symm)
    rw [next_thread_of_ne hji (.inr (.inr rfl))]
    have hshared : (next config W (.crash j)).shared = W.shared ∨
        (next config W (.crash j)).shared = W.shared.release j :=
      (Client.crash_fst j W.shared (W.thread j)).imp_left (·.2)
    rcases hshared with hsame | hsame <;> rw [hsame]
    · exact ⟨hlock, hraised, rfl⟩
    · exact ⟨Shared.release_lock_of_ne hji hlock, hraised, rfl⟩

end System

end

/-! ## A demotion that holds the lock, and one that never lets go of it -/

namespace Scenario

/-- A directory whose task can be demoted at once. -/
def demotable : Directory := .ok [{ declaration with initialPosition := .hotl }]

/-- A demotion is called. -/
def startsDemotion : Action := .start 0 (.demote ⟨"t", none, "incident", none, []⟩)

/-- It loads its declaration. -/
def loading (directory : Directory) : System :=
  @System.next hashing config (@System.next hashing config (System.init directory) startsDemotion)
    (.advance 0 (io 0) (.completes "tmp"))

/-- Surroundings in which the fourth interaction fails. -/
def failing : Io := { io 1 with faults := fun n => if n = 3 then some .osError else none }

/-- The demotion opens its block, and fails in it. -/
def opening (directory : Directory) (io : Io) : System :=
  @System.next hashing config (loading directory) (.advance 0 io (.completes "tmp"))

theorem run_loading (directory : Directory) :
    Run (@System.next hashing config) (@System.Closing hashing config) (System.init directory)
      (loading directory) := by
  have hstart : Run (@System.next hashing config) (@System.Closing hashing config)
      (System.init directory) (@System.next hashing config (System.init directory) startsDemotion) :=
    .single startsDemotion trivial
  exact hstart.act (.advance 0 (io 0) (.completes "tmp")) trivial

end Scenario

end PaaRuntime
