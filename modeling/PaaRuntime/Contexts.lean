import PaaRuntime.Lib.Interleaving
import PaaRuntime.ServiceSpec

/-!
# Leaving a transaction context

`transaction()` and `begin_immediate()` promise to commit on clean exit and to roll back on any
exception. The COMMIT runs in the `else` branch, outside the handler that rolls back: a context that
has been left is closed exactly where its closing statement does not fail with the transaction open
(`context_closed_iff`).
-/

namespace PaaRuntime

open Prog

variable {α β : Type}

/-! ## Bodies -/

/-- The body of a context: from an open transaction it goes, however it ends, to the same
transaction with more rows, each of which fits beside those before it. -/
def Inside (body : Py α) : Prop :=
  ∀ s rows, s.world.working = some rows →
    (body s).2.outside = s.outside ∧
      ∃ written, (body s).2.world.working = some (rows ++ written) ∧ FitsAll rows written

theorem fitsAll_append {t written more : List AutonomyEvent} (h : FitsAll t written)
    (h' : FitsAll (t ++ written) more) : FitsAll t (written ++ more) := by
  induction written generalizing t with
  | nil => rwa [List.append_nil] at h'
  | cons e written ih =>
    refine ⟨h.1, ih h.2 ?_⟩
    rwa [List.append_assoc, List.singleton_append]

/-- Rows that fit have ids of their own. -/
theorem FitsAll.not_mem {t written : List AutonomyEvent} (h : FitsAll t written) {e : AutonomyEvent}
    (he : e ∈ written) : e ∉ t := by
  induction written generalizing t with
  | nil => cases he
  | cons a written ih =>
    rcases List.mem_cons.1 he with rfl | he
    · exact fun ht => (h.1.unique e ht).1 rfl
    · exact fun ht => ih h.2 he (List.mem_append_left [a] ht)

namespace Inside

/-- A part that leaves the world alone, such as a read, may stand in a body. -/
theorem of_keeps {x : Py α} (h : Keeps Session.world x) : Inside x := by
  intro s rows hs
  refine ⟨keeps_outside_of_world h s, [], ?_, trivial⟩
  rw [h s, List.append_nil]
  exact hs

theorem query (f : Table → α) : Inside (query f) := of_keeps (keeps_world_query f)

theorem pure (a : α) : Inside (Pure.pure a : Py α) := of_keeps (Keeps.pure a)

theorem throw (e : PyError) : Inside (MonadExcept.throw e : Py α) := of_keeps (Keeps.throw e)

theorem bind {x : Py α} {f : α → Py β} (hx : Inside x) (hf : ∀ a, Inside (f a)) :
    Inside (x >>= f) := by
  intro s rows hs
  obtain ⟨hout, written, hw, hfits⟩ := hx s rows hs
  rw [bind_run]
  rcases hr : x s with ⟨e | a, s₁⟩ <;> rw [hr] at hout hw
  · exact ⟨hout, written, hw, hfits⟩
  · obtain ⟨hout', more, hw', hfits'⟩ := hf a s₁ _ hw
    refine ⟨hout'.trans hout, written ++ more, ?_, fitsAll_append hfits hfits'⟩
    rw [hw', List.append_assoc]

theorem tryCatch {x : Py α} {h : PyError → Py α} (hx : Inside x) (hh : ∀ e, Inside (h e)) :
    Inside (MonadExcept.tryCatch x h) := by
  intro s rows hs
  obtain ⟨hout, written, hw, hfits⟩ := hx s rows hs
  rw [tryCatch_run]
  rcases hr : x s with ⟨e | a, s₁⟩ <;> rw [hr] at hout hw
  · obtain ⟨hout', more, hw', hfits'⟩ := hh e s₁ _ hw
    refine ⟨hout'.trans hout, written ++ more, ?_, fitsAll_append hfits hfits'⟩
    rw [hw', List.append_assoc]
  · exact ⟨hout, written, hw, hfits⟩

/-- An insert appends a row that fits, or raises and appends nothing. -/
theorem insertAutonomyEvent (c : Columns) : Inside (insertAutonomyEvent c) := by
  intro s rows hs
  refine ⟨keeps_outside_insertAutonomyEvent c s, ?_⟩
  rcases hr : PaaRuntime.insertAutonomyEvent c s with ⟨e | u, s'⟩
  · refine ⟨[], ?_, trivial⟩
    rw [(insertAutonomyEvent_raisesClean c) s e s' hr, List.append_nil]
    exact hs
  · obtain ⟨rows', e, hrows, -, -, hfits, hw⟩ := insertAutonomyEvent_ok hr
    obtain rfl : rows = rows' := Option.some.inj (hs.symm.trans hrows)
    exact ⟨[e], by rw [hw]; rfl, hfits, trivial⟩

end Inside

/-! ## Later use of the store -/

/-- What happens on a store after a context: a read, an insert, another context, and what other
connections commit. Each call of the store meets surroundings of its own. -/
inductive StoreAction
  | read (io : Io)
  | insert (io : Io) (c : Columns)
  | context (io : Io) (immediate : Bool) (body : Py Unit)
  | others (table : Table) (locked : Bool)

namespace StoreAction

/-- One action on the store. -/
def next (s : Session) : StoreAction → Session
  | read io => (query id ⟨s.world, io⟩).2
  | insert io c => (insertAutonomyEvent c ⟨s.world, io⟩).2
  | context io immediate body => ((begin_ immediate >>= fun _ => closing body) ⟨s.world, io⟩).2
  | others table locked => { s with world := { s.world with committed := table, locked } }

/-- The rows of `written` are in no table at hand. -/
def Absent (written : Table) (w : World) : Prop :=
  ∀ e ∈ written, e ∉ w.committed ∧ ∀ rows, w.working = some rows → e ∉ rows

/-- The action does not itself write a row of `written`. -/
def Spares (written : Table) (_ : Session) : StoreAction → Prop
  | read _ => True
  | insert _ c => ∀ e ∈ written, c ≠ e.columns
  | context _ _ body => Inside body ∧ ∀ s, Absent written s.world → Absent written (body s).2.world
  | others table _ => ∀ e ∈ written, e ∉ table

/-- A later state of the store, where nobody writes the rows of `written` again. -/
abbrev Later (written : Table) : Session → Session → Prop := Run next (Spares written)

end StoreAction

/-- A context that has been left is closed: no transaction is open; the rows of the body are
durable, or no later read returns one; a later `begin_immediate` can start; an insert is refused. -/
structure ContextClosed (s s' : Session) (written : Table) : Prop where
  closed : s'.world.working = none
  rows : s'.world.committed = s.world.committed ++ written ∨
    ∀ s'', StoreAction.Later written s' s'' → ∀ e ∈ written, e ∉ s''.world.view
  begins : ∀ w io, w.working = s'.world.working → w.locked = false → io.faults.head = none →
    ∃ s'', begin_ true ⟨w, io⟩ = (.ok (), s'')
  refuses : ∀ io c, ∃ e : PyError, e.cls = .runtimeError ∧
    insertAutonomyEvent c ⟨s'.world, io⟩ = (.error e, ⟨s'.world, io⟩)

/-- How the closing statement ends: the COMMIT after a body that ended normally, or the ROLLBACK
after one that raised, does not fail with the transaction left open. -/
def ClosingGoesThrough : Except PyError α × Session → Prop
  | (.ok _, s) => s.io.faults.head = none ∧ s.io.commits.head ≠ .refused true
  | (.error _, s) => s.io.faults.head = none

namespace StoreAction

variable {written : Table} {w : World} {s : Session}

theorem absent_view (h : Absent written w) : ∀ e ∈ written, e ∉ w.view := by
  intro e he
  unfold World.view
  cases hw : w.working with
  | none => exact (h e he).1
  | some rows => exact (h e he).2 rows hw

theorem absent_begin (immediate : Bool) (h : Absent written s.world) :
    Absent written (begin_ immediate s).2.world := by
  rcases hb : begin_ immediate s with ⟨e | u, s'⟩
  · rw [begin_raisesClean immediate s e s' hb]
    exact h
  · rw [(begin_ok hb).2.2]
    exact fun e he => ⟨(h e he).1, fun rows hrows => Option.some.inj hrows ▸ (h e he).1⟩

theorem absent_setWorking_none (h : Absent written w) : Absent written (w.setWorking none) :=
  fun e he => ⟨(h e he).1, fun _ hrows => nomatch hrows⟩

theorem absent_rollback (h : Absent written s.world) : Absent written (rollback s).2.world := by
  rcases hf : s.io.faults.head with _ | f
  · rw [rollback_of_quiet hf]
    exact absent_setWorking_none h
  · rw [rollback_of_fault hf]
    exact h

theorem absent_commit (h : Absent written s.world) : Absent written (commit s).2.world := by
  rcases hf : s.io.faults.head with _ | f
  · rw [commit_of_quiet hf]
    split
    · exact fun e he => ⟨absent_view h e he, fun _ hrows => nomatch hrows⟩
    · exact h
    · exact absent_setWorking_none h
  · rw [commit_of_fault hf]
    exact h

theorem absent_closing {body : Py α} (hbody : Absent written (body s).2.world) :
    Absent written (closing body s).2.world := by
  rw [closing_snd]
  rcases hb : body s with ⟨e | a, s₁⟩ <;> rw [hb] at hbody
  · exact absent_rollback hbody
  · exact absent_commit hbody

/-- The rows stay away. -/
theorem absent_next (h : Absent written s.world) {a : StoreAction} (ha : Spares written s a) :
    Absent written (next s a).world := by
  cases a with
  | read io =>
    have hw := keeps_world_query (fun t : Table => t) ⟨s.world, io⟩
    exact hw ▸ h
  | insert io c =>
    show Absent written (insertAutonomyEvent c ⟨s.world, io⟩).2.world
    rcases hi : insertAutonomyEvent c ⟨s.world, io⟩ with ⟨e | u, s'⟩
    · rw [insertAutonomyEvent_raisesClean c _ e s' hi]
      exact h
    · obtain ⟨rows, e, hrows, -, hc, -, hw⟩ := insertAutonomyEvent_ok hi
      rw [hw]
      intro r hr
      refine ⟨(h r hr).1, fun rows' hrows' => ?_⟩
      cases hrows'
      rw [List.mem_append, List.mem_singleton, not_or]
      exact ⟨(h r hr).2 rows hrows, fun he => ha r hr (he ▸ hc)⟩
  | context io immediate body =>
    show Absent written ((begin_ immediate >>= fun _ => closing body) ⟨s.world, io⟩).2.world
    have hbegin := absent_begin immediate (s := ⟨s.world, io⟩) h
    rw [bind_run]
    rcases hb : begin_ immediate ⟨s.world, io⟩ with ⟨e | u, s₀⟩ <;> rw [hb] at hbegin
    · exact hbegin
    · exact absent_closing (ha.2 s₀ hbegin)
  | others table locked => exact fun e he => ⟨ha e he, (h e he).2⟩

theorem absent_later {s' : Session} (h : Absent written s.world) (hlater : Later written s s') :
    Absent written s'.world :=
  hlater.invariant (P := fun s => Absent written s.world) (fun _ _ ha ht => absent_next ht ha) h

end StoreAction

/-! ## Leaving -/

section

variable {s s₀ : Session} {immediate : Bool} {body : Py α} {written : Table}

/-- A context without an open transaction begins anew and refuses inserts. -/
theorem contextClosed_of_none {s' : Session} (hnone : s'.world.working = none)
    (hrows : s'.world.committed = s.world.committed ++ written ∨
      ∀ s'', StoreAction.Later written s' s'' → ∀ e ∈ written, e ∉ s''.world.view) :
    ContextClosed s s' written := by
  refine ⟨hnone, hrows, fun w io hw hlock hquiet => ?_, fun io c => ?_⟩
  · exact ⟨_, begin_of_quiet hquiet (hw.trans hnone) fun _ => hlock⟩
  · unfold insertAutonomyEvent
    rw [gets_bind_run]
    simp only [hnone]
    exact ⟨_, rfl, rfl⟩

/-- A context that has been left is closed exactly where its closing statement did not fail with the
transaction left open. -/
theorem context_closed_iff (hbody : Inside body) (hbegin : begin_ immediate s = (.ok (), s₀))
    (hwritten : (body s₀).2.world.working = some (s.world.committed ++ written)) :
    ContextClosed s ((begin_ immediate >>= fun _ => closing body) s).2 written ↔
      ClosingGoesThrough (body s₀) := by
  obtain ⟨-, -, hw₀⟩ := begin_ok hbegin
  have hworking : s₀.world.working = some s.world.committed := by rw [hw₀]; rfl
  obtain ⟨hout, more, hmore, hfits⟩ := hbody s₀ _ hworking
  obtain rfl : written = more :=
    List.append_cancel_left (Option.some.inj (hwritten.symm.trans hmore))
  have hcommitted : (body s₀).2.world.committed = s.world.committed := by
    have h := congrArg World.committed hout
    rw [Session.outside, Session.outside, hw₀] at h
    exact h
  have hleft : ((begin_ immediate >>= fun _ => closing body) s).2 = (closing body s₀).2 := by
    rw [bind_run, hbegin]
  have haway : ∀ s' : Session, s'.world = (body s₀).2.world.setWorking none →
      ContextClosed s s' written := by
    intro s' hs'
    have habsent : StoreAction.Absent written s'.world := by
      rw [hs']
      refine fun e he => ⟨?_, fun _ hrows => nomatch hrows⟩
      rw [World.setWorking_committed, hcommitted]
      exact hfits.not_mem he
    refine contextClosed_of_none (by rw [hs']; rfl) (.inr fun s'' hlater => ?_)
    exact StoreAction.absent_view (StoreAction.absent_later habsent hlater)
  have hopen : ∀ s' : Session, s'.world = (body s₀).2.world → ¬ ContextClosed s s' written := by
    intro s' hs' hclosed
    have hnone := hclosed.closed
    rw [hs', hwritten] at hnone
    cases hnone
  rw [hleft, closing_snd]
  rcases hb : body s₀ with ⟨e | a, s₁⟩ <;> rw [hb] at hwritten hcommitted haway hopen
  · show ContextClosed s (rollback s₁).2 written ↔ s₁.io.faults.head = none
    rcases hf : s₁.io.faults.head with _ | f
    · rw [rollback_of_quiet hf]
      exact iff_of_true (haway _ rfl) rfl
    · rw [rollback_of_fault hf]
      exact iff_of_false (hopen _ rfl) fun h => nomatch h
  · show ContextClosed s (commit s₁).2 written ↔
      s₁.io.faults.head = none ∧ s₁.io.commits.head ≠ .refused true
    rcases hf : s₁.io.faults.head with _ | f
    · have hcommit := commit_of_quiet hf
      rcases hc : s₁.io.commits.head with _ | _ | _ <;> rw [hc] at hcommit
      · refine iff_of_true (contextClosed_of_none (by rw [hcommit]; rfl) (.inl ?_)) ⟨rfl, nofun⟩
        rw [hcommit, World.commitAs_committed, World.view_of_working hwritten]
      · exact iff_of_true (haway _ hcommit) ⟨rfl, nofun⟩
      · exact iff_of_false (hopen _ hcommit) fun h => h.2 rfl
    · rw [commit_of_fault hf]
      exact iff_of_false (hopen _ rfl) fun h => nomatch h.1

end

/-! ## A COMMIT that is refused -/

namespace ContextSample

def row : AutonomyEvent where
  id := "e"
  motionId := "m"
  task := "t"
  declarationVersion := 1
  scope := none
  event := .motionProposed
  fromPosition := .hitl
  toPosition := .hotl
  evidenceRef := "ref"
  evidenceSha256 := "sha"
  actor := "operator"
  reason := "reason"
  createdAt := "now"

/-- An empty store where nothing fails before the COMMIT. -/
def session (outcome : CommitOutcome) : Session where
  world := ⟨[], none, false, .ok [], Disk.empty⟩
  io :=
    { faults := fun _ => none
      commits := fun _ => outcome
      clock := fun _ => "now"
      eventIds := fun _ => "e"
      motionIds := fun _ => "m"
      tempNames := fun _ => "tmp"
      written := 0
      files := fun _ => none
      environ := fun _ => none
      login := .ok "operator"
      login_error := login_ok }

/-- A context that inserts one row. -/
def body : Py Unit := insertAutonomyEvent row.columns

theorem inside_body : Inside body := Inside.insertAutonomyEvent row.columns

theorem body_working (outcome : CommitOutcome) :
    (body (begin_ true (session outcome)).2).2.world.working = some [row] := rfl

end ContextSample

open ContextSample in
/-- A context whose COMMIT goes through is closed. -/
theorem context_closed_iff_sample :
    ContextClosed (session .done) (beginImmediate body (session .done)).2 [row] :=
  (@context_closed_iff _ (session .done) (begin_ true (session .done)).2 true body [row] inside_body rfl
    (body_working .done)).2 ⟨rfl, nofun⟩

open ContextSample in
/-- A COMMIT that is refused with the transaction left open leaves the context open: the row that is
not durable is read. -/
theorem context_left_open :
    ¬ ContextClosed (session (.refused true)) (beginImmediate body (session (.refused true))).2
      [row] := by
  intro h
  have hopen : (beginImmediate body (session (.refused true))).2.world.working = some [row] := rfl
  rw [h.closed] at hopen
  cases hopen

end PaaRuntime
