import PaaRuntime.Lib.GuardedTable
import PaaRuntime.Session

/-!
# The event store

`SqliteEventStore`: the `autonomy_events` table with its constraints, the four readers, the insert,
and the two transaction contexts. The readers are functions of the rows the connection sees; SQLite
compares texts bytewise in UTF-8, which is the order of their code points.
-/

namespace PaaRuntime

open Prog

/-! ## The table -/

/-- The values of an `INSERT` into `autonomy_events`. -/
structure Columns where
  eventSchema : Option String
  id : String
  motionId : Option String
  task : Option String
  declarationVersion : Option Int
  scope : Option String
  event : Option String
  fromPosition : Option String
  toPosition : Option String
  evidenceRef : Option String
  evidenceSha256 : Option String
  actor : Option String
  reason : Option String
  createdAt : Option String

def AutonomyEvent.columns (e : AutonomyEvent) : Columns where
  eventSchema := some e.eventSchema
  id := e.id
  motionId := some e.motionId
  task := some e.task
  declarationVersion := some e.declarationVersion
  scope := e.scope
  event := some e.event.text
  fromPosition := some e.fromPosition.text
  toPosition := some e.toPosition.text
  evidenceRef := some e.evidenceRef
  evidenceSha256 := some e.evidenceSha256
  actor := some e.actor
  reason := some e.reason
  createdAt := some e.createdAt

/-- `NOT NULL`. -/
def notNull {α : Type} (column : String) : Option α → Except PyError α
  | some a => .ok a
  | none => .error ⟨.integrityError, s!"NOT NULL constraint failed: autonomy_events.{column}"⟩

/-- `CHECK(column IN (...))`. -/
def checkIn {α : Type} (constraint : String) : Option α → Except PyError α
  | some a => .ok a
  | none => .error ⟨.integrityError, s!"CHECK constraint failed: {constraint}"⟩

/-- The row that the values are stored as: `NOT NULL` by column, then the `CHECK`s. -/
def Columns.asRow (c : Columns) : Except PyError AutonomyEvent := do
  let eventSchema ← notNull "event_schema" c.eventSchema
  let motionId ← notNull "motion_id" c.motionId
  let task ← notNull "task" c.task
  let declarationVersion ← notNull "declaration_version" c.declarationVersion
  let event ← notNull "event" c.event
  let fromPosition ← notNull "from_position" c.fromPosition
  let toPosition ← notNull "to_position" c.toPosition
  let evidenceRef ← notNull "evidence_ref" c.evidenceRef
  let evidenceSha256 ← notNull "evidence_sha256" c.evidenceSha256
  let actor ← notNull "actor" c.actor
  let reason ← notNull "reason" c.reason
  let createdAt ← notNull "created_at" c.createdAt
  let event ← checkIn ("event IN (\n        'motion_proposed', 'motion_approved', " ++
    "'motion_rejected', 'position_changed'\n    )") (AutonomyEventType.ofText? event)
  let fromPosition ← checkIn
    "from_position IN (\n        'manual', 'hitl', 'hotl', 'autonomous'\n    )"
    (AutonomyPosition.ofText? fromPosition)
  let toPosition ← checkIn
    "to_position IN (\n        'manual', 'hitl', 'hotl', 'autonomous'\n    )"
    (AutonomyPosition.ofText? toPosition)
  return ⟨eventSchema, c.id, motionId, task, declarationVersion, c.scope, event, fromPosition,
    toPosition, evidenceRef, evidenceSha256, actor, reason, createdAt⟩

theorem notNull_ok {α : Type} {column : String} {o : Option α} {a : α} :
    notNull column o = .ok a ↔ o = some a := by cases o <;> simp [notNull]

theorem checkIn_ok {α : Type} {constraint : String} {o : Option α} {a : α} :
    checkIn constraint o = .ok a ↔ o = some a := by cases o <;> simp [checkIn]

/-- A row is stored from exactly its own values. -/
theorem asRow_ok {c : Columns} {e : AutonomyEvent} : c.asRow = .ok e ↔ c = e.columns := by
  obtain ⟨schema, id, motion, task, version, scope, event, fromP, toP, ref, sha, actor, reason,
    created⟩ := c
  obtain ⟨schema', id', motion', task', version', scope', event', fromP', toP', ref', sha', actor',
    reason', created'⟩ := e
  simp only [Columns.asRow, AutonomyEvent.columns, except_bind_ok, notNull_ok, checkIn_ok,
    except_pure_ok, AutonomyEventType.ofText?_eq_some, AutonomyPosition.ofText?_eq_some,
    Columns.mk.injEq, AutonomyEvent.mk.injEq]
  grind

/-- `autonomy_events`: unique by `id` and by `(motion_id, event)`, guarded by its triggers. -/
def autonomyEvents : GuardedTable Columns PyError AutonomyEvent where
  asRow := Columns.asRow
  keys := [⟨"autonomy_events.id", fun a b => decide (a.id = b.id)⟩,
    ⟨"autonomy_events.motion_id, autonomy_events.event",
      fun a b => decide (a.motionId = b.motionId ∧ a.event = b.event)⟩]

/-- Two rows agree on a unique key of `autonomy_events`. -/
theorem clash_iff {a b : AutonomyEvent} :
    autonomyEvents.clash a b = true ↔ a.id = b.id ∨ a.motionId = b.motionId ∧ a.event = b.event := by
  simp [GuardedTable.clash, autonomyEvents]

/-- The exception a failed statement is seen as. -/
def sqlError : SqlError PyError → PyError
  | .column e => e
  | .unique key => ⟨.integrityError, s!"UNIQUE constraint failed: {key}"⟩
  | .raised => ⟨.integrityError, "autonomy_events is append-only"⟩

/-! ## Readers -/

/-- The `position_changed` rows of exactly one triple; `scope IS ?` matches null with null. -/
def positionChanges (t : Triple) (table : Table) : Table :=
  table.filter fun e => e.triple = t ∧ e.event = .positionChanged

/-- The rows of one motion, oldest first. -/
def eventsForMotion (motionId : String) (table : Table) : Table :=
  StampedLog.inOrder AutonomyEvent.stamp (table.filter (·.motionId = motionId))

/-- The latest `position_changed` row of a triple. -/
def latestPositionChanged (t : Triple) (table : Table) : Option AutonomyEvent :=
  StampedLog.latest AutonomyEvent.stamp (positionChanges t table)

/-- The latest `position_changed` row of a triple strictly before a point. -/
def positionChangedBefore (t : Triple) (point : Stamp) (table : Table) : Option AutonomyEvent :=
  StampedLog.before AutonomyEvent.stamp (positionChanges t table) point

/-- All rows, or those of one task, oldest first. -/
def allEvents (task : Option String) (table : Table) : Table :=
  StampedLog.inOrder AutonomyEvent.stamp (table.filter fun e => ∀ t ∈ task, e.task = t)

/-- An integer that fits SQLite's eight bytes. -/
def IsInt64 (i : Int) : Prop := -9223372036854775808 ≤ i ∧ i < 9223372036854775808

instance (i : Int) : Decidable (IsInt64 i) := inferInstanceAs (Decidable (_ ∧ _))

/-- Bind an integer parameter, or null. -/
def bindInteger (i : Option Int) : Except PyError Unit :=
  require (∀ v ∈ i, IsInt64 v) ⟨.overflowError, "Python int too large to convert to SQLite INTEGER"⟩

/-- Run a query on the rows the connection sees. -/
def query {α : Type} (f : Table → α) : Py α := do
  tick
  gets (f ·.world.view)

/-- `get_autonomy_events_for_motion`. -/
def getAutonomyEventsForMotion (motionId : String) : Py Table := query (eventsForMotion motionId)

/-- `get_latest_position_changed_event`. -/
def getLatestPositionChangedEvent (t : Triple) : Py (Option AutonomyEvent) := do
  bindInteger (some t.declarationVersion)
  query (latestPositionChanged t)

/-- `get_position_changed_event_before`. -/
def getPositionChangedEventBefore (t : Triple) (createdAt eventId : String) :
    Py (Option AutonomyEvent) := do
  bindInteger (some t.declarationVersion)
  query (positionChangedBefore t (toLex (createdAt, eventId)))

/-- `get_autonomy_events`. -/
def getAutonomyEvents (task : Option String) : Py Table := query (allEvents task)

/-! ## Writing -/

/-- `insert_autonomy_event`. -/
def insertAutonomyEvent (c : Columns) : Py Unit := do
  match ← gets (·.world.working) with
  | none => throw ⟨.runtimeError, "insert_autonomy_event requires an open transaction: call it " ++
      "inside transaction() or begin_immediate() so sibling event writes commit atomically"⟩
  | some rows =>
    bindInteger c.declarationVersion
    tick
    let locked ← gets (·.world.locked)
    require (locked = false) ⟨.operationalError, "database is locked"⟩
    match autonomyEvents.insertRow rows c with
    | .error e => throw (sqlError e)
    | .ok rows' => modify fun s => { s with world := s.world.setWorking (some rows') }

/-- `BEGIN`, or `BEGIN IMMEDIATE`, which takes the write lock. -/
def begin_ (immediate : Bool) : Py Unit := do
  tick
  let w ← gets (·.world)
  require (w.working = none)
    ⟨.operationalError, "cannot start a transaction within a transaction"⟩
  require (immediate = true → w.locked = false) ⟨.operationalError, "database is locked"⟩
  modify fun s => { s with world := s.world.setWorking (some s.world.committed) }

/-- `ROLLBACK`. -/
def rollback : Py Unit := do
  tick
  modify fun s => { s with world := s.world.setWorking none }

/-- `COMMIT`: durable, or refused by the database, which may leave the transaction open. -/
def commit : Py Unit := do
  tick
  match ← draw (·.commits) fun c io => { io with commits := c } with
  | .done => modify fun s => { s with world := s.world.commitAs s.world.view }
  | .refused true => throw ⟨.operationalError, "database or disk is full"⟩
  | .refused false => do
    modify fun s => { s with world := s.world.setWorking none }
    throw ⟨.operationalError, "database or disk is full"⟩

/-- `except BaseException: rollback(); raise`. -/
def rollbackOnError {α : Type} (body : Py α) : Py α :=
  tryCatch body fun e => do
    rollback
    throw e

/-- The body of an open transaction: commits on clean exit, rolls back on any exception. -/
def closing {α : Type} (body : Py α) : Py α := do
  let a ← rollbackOnError body
  commit
  return a

/-- `transaction`. -/
def transaction {α : Type} (body : Py α) : Py α := do
  begin_ false
  closing body

/-- `begin_immediate`. -/
def beginImmediate {α : Type} (body : Py α) : Py α := do
  begin_ true
  closing body

/-! ## What the primitives do -/

section

variable {α : Type} {s s' : Session}

theorem keeps_world_query (f : Table → α) : Keeps Session.world (query f) :=
  keeps_world_tick.bind fun _ => Keeps.gets _

/-- A query that returns has read the rows the connection sees. -/
theorem query_ok {f : Table → α} {a : α} (h : query f s = (.ok a, s')) :
    a = f s.world.view ∧ s'.world = s.world := by
  obtain ⟨_, s₁, -, hw, h⟩ := keeps_world_tick.bind_ok h
  obtain ⟨rfl, rfl⟩ := gets_ok.1 h
  exact ⟨by rw [hw], hw⟩

/-- Without a fault in store a query reads the rows the connection sees. -/
theorem query_of_quiet (hquiet : s.io.faults.head = none) (f : Table → α) :
    query f s = (.ok (f s.world.view), { s with io := { s.io with faults := s.io.faults.tail } }) := by
  unfold query
  rw [bind_run, tick_of_quiet hquiet]
  rfl

theorem query_of_fault {fault : Fault} (h : s.io.faults.head = some fault) (f : Table → α) :
    query f s = (.error fault.toError, { s with io := { s.io with faults := s.io.faults.tail } }) := by
  unfold query
  rw [bind_run, tick_of_fault h]

/-- A query with an integer parameter that returns has bound the integer. -/
theorem bindInteger_query_ok {i : Int} {f : Table → α} {a : α}
    (h : (liftM (bindInteger (some i)) >>= fun _ => query f) s = (.ok a, s')) :
    IsInt64 i ∧ a = f s.world.view ∧ s'.world = s.world := by
  obtain ⟨hi, h⟩ := require_bind_ok h
  exact ⟨hi i rfl, query_ok h⟩

theorem keeps_world_getLatestPositionChangedEvent (t : Triple) :
    Keeps Session.world (getLatestPositionChangedEvent t) :=
  (Keeps.lift _).bind fun _ => keeps_world_query _

theorem getLatestPositionChangedEvent_ok {t : Triple} {o : Option AutonomyEvent}
    (h : getLatestPositionChangedEvent t s = (.ok o, s')) :
    IsInt64 t.declarationVersion ∧ o = latestPositionChanged t s.world.view ∧ s'.world = s.world :=
  bindInteger_query_ok h

theorem getPositionChangedEventBefore_ok {t : Triple} {createdAt eventId : String}
    {o : Option AutonomyEvent}
    (h : getPositionChangedEventBefore t createdAt eventId s = (.ok o, s')) :
    o = positionChangedBefore t (toLex (createdAt, eventId)) s.world.view ∧ s'.world = s.world :=
  (bindInteger_query_ok h).2

/-- A row that fits beside the rows of a table: its version can be bound and it collides with no
row on a unique key. -/
structure Fits (t : Table) (e : AutonomyEvent) : Prop where
  version : IsInt64 e.declarationVersion
  unique : ∀ r ∈ t, r.id ≠ e.id ∧ ¬ (r.motionId = e.motionId ∧ r.event = e.event)

theorem violated_eq_none_iff {t : Table} {e : AutonomyEvent} :
    autonomyEvents.violated t e = none ↔
      ∀ r ∈ t, r.id ≠ e.id ∧ ¬ (r.motionId = e.motionId ∧ r.event = e.event) := by
  rw [GuardedTable.violated_eq_none]
  refine forall₂_congr fun r _ => ?_
  rw [← Bool.not_eq_true, clash_iff, not_or, ne_comm, and_congr_right_iff]
  intro _
  rw [eq_comm, @eq_comm _ e.event]

/-- An insert that returns appended the row of its values, which fits. -/
theorem insertAutonomyEvent_ok {c : Columns} {u : Unit}
    (h : insertAutonomyEvent c s = (.ok u, s')) :
    ∃ rows e, s.world.working = some rows ∧ s.world.locked = false ∧ c = e.columns ∧ Fits rows e ∧
      s'.world = s.world.setWorking (some (rows ++ [e])) := by
  unfold insertAutonomyEvent at h
  rw [gets_bind_run] at h
  rcases hw : s.world.working with _ | rows <;> rw [hw] at h
  · exact absurd h throw_ok
  · obtain ⟨hversion, h₁⟩ := require_bind_ok h
    obtain ⟨_, s₁, -, hw₁, h₂⟩ := keeps_world_tick.bind_ok h₁
    rw [gets_bind_run] at h₂
    obtain ⟨hlock, h₃⟩ := require_bind_ok h₂
    rcases hi : autonomyEvents.insertRow rows c with e | rows' <;> simp only [hi] at h₃
    · exact absurd h₃ throw_ok
    · obtain ⟨e, he, hv, rfl⟩ := GuardedTable.insertRow_ok.1 hi
      obtain rfl := asRow_ok.1 he
      obtain rfl := modify_ok.1 h₃
      refine ⟨rows, e, rfl, hw₁ ▸ hlock, rfl, ⟨hversion _ rfl, violated_eq_none_iff.1 hv⟩, ?_⟩
      simp only [hw₁]

theorem columns_injective : Function.Injective AutonomyEvent.columns := fun _ _ h =>
  Except.ok.inj ((asRow_ok.2 rfl).symm.trans (asRow_ok.2 h))

/-- An insert of a row that returns appended that row, which fits. -/
theorem insertRow_ok {e : AutonomyEvent} {u : Unit}
    (h : insertAutonomyEvent e.columns s = (.ok u, s')) :
    ∃ rows, s.world.working = some rows ∧ s.world.locked = false ∧ Fits rows e ∧
      s'.world = s.world.setWorking (some (rows ++ [e])) := by
  obtain ⟨rows, e', hw, hl, hc, hfit, hs⟩ := insertAutonomyEvent_ok h
  obtain rfl := columns_injective hc
  exact ⟨rows, hw, hl, hfit, hs⟩

/-- What every insert and every query leaves alone: all but the open transaction. -/
def Session.outside (s : Session) : World := s.world.setWorking none

theorem keeps_outside_of_world {x : Py α} (h : Keeps Session.world x) :
    Keeps Session.outside x := by
  intro s
  unfold Session.outside
  rw [h s]

theorem keeps_outside_insertAutonomyEvent (c : Columns) :
    Keeps Session.outside (insertAutonomyEvent c) := by
  refine (Keeps.gets _).bind fun rows => ?_
  cases rows with
  | none => exact Keeps.throw _
  | some rows =>
    refine (Keeps.lift _).bind fun _ => (keeps_outside_of_world keeps_world_tick).bind fun _ =>
      (Keeps.gets _).bind fun locked => (Keeps.lift _).bind fun _ => ?_
    split
    · exact Keeps.throw _
    · exact fun _ => rfl

/-- An insert that raises has changed nothing. -/
theorem insertAutonomyEvent_raisesClean (c : Columns) :
    RaisesClean Session.world (insertAutonomyEvent c) := by
  refine .bind (Keeps.gets _) fun rows => ?_
  cases rows with
  | none => exact .of_keeps (Keeps.throw _)
  | some rows =>
    refine .bind (Keeps.lift _) fun _ => .bind keeps_world_tick fun _ => .bind (Keeps.gets _)
      fun locked => .bind (Keeps.lift _) fun _ => ?_
    split
    · exact .of_keeps (Keeps.throw _)
    · exact fun _ _ _ h => nomatch h

/-! ## What the contexts do -/

/-- The committed table. -/
def Session.committed (s : Session) : Table := s.world.committed

theorem keeps_committed_of_outside {x : Py α} (h : Keeps Session.outside x) :
    Keeps Session.committed x := by
  intro s
  have hs := congrArg World.committed (h s)
  exact hs

theorem keeps_committed_of_world {x : Py α} (h : Keeps Session.world x) :
    Keeps Session.committed x := fun s => congrArg World.committed (h s)

/-- Opening a transaction that succeeds: there was none, and under `IMMEDIATE` no other writer. -/
theorem begin_ok {immediate : Bool} {u : Unit} (h : begin_ immediate s = (.ok u, s')) :
    s.world.working = none ∧ (immediate = true → s.world.locked = false) ∧
      s'.world = s.world.setWorking (some s.world.committed) := by
  obtain ⟨_, s₁, -, hw₁, h₁⟩ := keeps_world_tick.bind_ok h
  rw [gets_bind_run] at h₁
  obtain ⟨hnone, h₂⟩ := require_bind_ok h₁
  obtain ⟨hlock, h₃⟩ := require_bind_ok h₂
  obtain rfl := modify_ok.1 h₃
  rw [hw₁] at hnone hlock
  exact ⟨hnone, hlock, by simp only [hw₁]⟩

/-- A transaction opens where none is, no fault strikes and no other writer is in the way. -/
theorem begin_of_quiet {immediate : Bool} (hquiet : s.io.faults.head = none)
    (hnone : s.world.working = none) (hlock : immediate = true → s.world.locked = false) :
    begin_ immediate s = (.ok (),
      ⟨s.world.setWorking (some s.world.committed), { s.io with faults := s.io.faults.tail }⟩) := by
  unfold begin_
  rw [bind_run, tick_of_quiet hquiet]
  dsimp only
  rw [gets_bind_run, require_bind_of hnone, require_bind_of hlock]
  rfl

theorem begin_raisesClean (immediate : Bool) : RaisesClean Session.world (begin_ immediate) :=
  .bind keeps_world_tick fun _ => .bind (Keeps.gets _) fun _ => .bind (Keeps.lift _) fun _ =>
    .bind (Keeps.lift _) fun _ _ _ _ h => nomatch h

/-- A ROLLBACK ends the transaction unless a fault strikes it. -/
theorem rollback_of_quiet (hquiet : s.io.faults.head = none) :
    rollback s = (.ok (),
      ⟨s.world.setWorking none, { s.io with faults := s.io.faults.tail }⟩) := by
  unfold rollback
  rw [bind_run, tick_of_quiet hquiet]
  rfl

theorem rollback_of_fault {f : Fault} (hfault : s.io.faults.head = some f) :
    rollback s = (.error f.toError, { s with io.faults := s.io.faults.tail }) := by
  unfold rollback
  rw [bind_run, tick_of_fault hfault]

theorem keeps_committed_begin (immediate : Bool) : Keeps Session.committed (begin_ immediate) :=
  (keeps_committed_of_world keeps_world_tick).bind fun _ => (Keeps.gets _).bind fun _ =>
    (Keeps.lift _).bind fun _ => (Keeps.lift _).bind fun _ _ => rfl

theorem keeps_committed_rollback : Keeps Session.committed rollback :=
  (keeps_committed_of_world keeps_world_tick).bind fun _ _ => rfl

/-- A COMMIT that returns has made the rows durable; one that raises has not. -/
theorem commit_ok {u : Unit} (h : commit s = (.ok u, s')) :
    s'.world = s.world.commitAs s.world.view := by
  obtain ⟨_, s₁, -, hw₁, h₁⟩ := keeps_world_tick.bind_ok h
  obtain ⟨outcome, s₂, -, hw₂, h₂⟩ := (keeps_world_draw _ _).bind_ok h₁
  cases outcome with
  | done =>
    obtain rfl := modify_ok.1 h₂
    simp only [hw₂, hw₁]
  | refused stillOpen => cases stillOpen <;> cases h₂

theorem commit_error {e : PyError} (h : commit s = (.error e, s')) :
    s'.committed = s.committed := by
  rcases bind_error.1 h with h | ⟨_, s₁, h₁, h⟩
  · exact (keeps_committed_of_world keeps_world_tick).eq_of_run h
  · have hc₁ := (keeps_committed_of_world keeps_world_tick).eq_of_run h₁
    rcases bind_error.1 h with h | ⟨outcome, s₂, h₂, h⟩
    · cases h
    · have hc₂ := (keeps_committed_of_world (keeps_world_draw _ _)).eq_of_run h₂
      cases outcome with
      | done => cases h
      | refused stillOpen =>
        cases stillOpen <;> cases h <;> exact hc₂.trans hc₁

/-- A COMMIT that no fault strikes ends as the surroundings have it. -/
theorem commit_of_quiet (hquiet : s.io.faults.head = none) :
    (commit s).2.world = match s.io.commits.head with
      | .done => s.world.commitAs s.world.view
      | .refused true => s.world
      | .refused false => s.world.setWorking none := by
  unfold commit
  rw [bind_run, tick_of_quiet hquiet]
  simp only [bind_run, draw]
  cases s.io.commits.head with
  | done => rfl
  | refused stillOpen => cases stillOpen <;> rfl

theorem commit_of_fault {f : Fault} (hfault : s.io.faults.head = some f) :
    commit s = (.error f.toError, { s with io.faults := s.io.faults.tail }) := by
  unfold commit
  rw [bind_run, tick_of_fault hfault]

theorem rollbackOnError_ok {body : Py α} {a : α} :
    rollbackOnError body s = (.ok a, s') ↔ body s = (.ok a, s') := by
  unfold rollbackOnError
  rw [tryCatch_run]
  rcases body s with ⟨e | b, s₁⟩
  · refine iff_of_false (fun h => ?_) (by simp)
    obtain ⟨_, s₂, -, h₂⟩ := bind_ok.1 h
    exact throw_ok h₂
  · rfl

/-- The handler of a body that raises rolls back. -/
theorem rollbackOnError_of_error {body : Py α} {e : PyError} (h : body s = (.error e, s')) :
    (rollbackOnError body s).2 = (rollback s').2 := by
  unfold rollbackOnError
  rw [tryCatch_run, h]
  dsimp only
  rw [bind_run]
  rcases rollback s' with ⟨_ | _, _⟩ <;> rfl

theorem rollbackOnError_ne_ok {body : Py α} {e : PyError} (h : body s = (.error e, s')) {a : α}
    {s₁ : Session} : rollbackOnError body s ≠ (.ok a, s₁) := by
  intro hr
  rw [rollbackOnError_ok, h] at hr
  cases hr

/-- What a context leaves: after a body that returned what its COMMIT leaves, after one that raised
what its ROLLBACK does. -/
theorem closing_snd (body : Py α) (s : Session) :
    (closing body s).2 = match body s with
      | (.ok _, s₁) => (commit s₁).2
      | (.error _, s₁) => (rollback s₁).2 := by
  unfold closing
  rcases hb : body s with ⟨e | a, s₁⟩
  · rw [bind_run]
    rcases hr : rollbackOnError body s with ⟨e' | a, s₂⟩
    · have hsnd := rollbackOnError_of_error hb
      rw [hr] at hsnd
      exact hsnd
    · exact absurd hr (rollbackOnError_ne_ok hb)
  · rw [bind_run, rollbackOnError_ok.2 hb]
    dsimp only
    rw [bind_run]
    rcases commit s₁ with ⟨_ | _, _⟩ <;> rfl

theorem keeps_committed_rollbackOnError {body : Py α} (h : Keeps Session.committed body) :
    Keeps Session.committed (rollbackOnError body) :=
  h.tryCatch fun _ => keeps_committed_rollback.bind fun _ => Keeps.throw _

/-- A transaction body that returns has its rows committed. -/
theorem closing_ok {body : Py α} {a : α} (h : closing body s = (.ok a, s')) :
    ∃ s₁, body s = (.ok a, s₁) ∧
      s'.world = s₁.world.commitAs s₁.world.view := by
  obtain ⟨b, s₁, h₁, h⟩ := bind_ok.1 h
  obtain ⟨_, s₂, h₂, h⟩ := bind_ok.1 h
  obtain ⟨rfl, rfl⟩ := pure_ok.1 h
  exact ⟨s₁, rollbackOnError_ok.1 h₁, commit_ok h₂⟩

/-- A transaction body that raises, or whose COMMIT does, commits nothing. -/
theorem closing_error {body : Py α} {e : PyError} (hbody : Keeps Session.committed body)
    (h : closing body s = (.error e, s')) : s'.committed = s.committed := by
  rcases bind_error.1 h with h | ⟨a, s₁, h₁, h⟩
  · exact (keeps_committed_rollbackOnError hbody).eq_of_run h
  · have hc₁ := (keeps_committed_rollbackOnError hbody).eq_of_run h₁
    rcases bind_error.1 h with h | ⟨_, s₂, h₂, h⟩
    · exact (commit_error h).trans hc₁
    · cases h

/-- What an `IMMEDIATE` block that returns has done: its body ran on the committed table with the
write lock held, and its rows are committed. -/
theorem beginImmediate_ok {body : Py α} {a : α} (h : beginImmediate body s = (.ok a, s')) :
    s.world.working = none ∧ s.world.locked = false ∧ ∃ s₀ s₁,
      s₀.world = s.world.setWorking (some s.world.committed) ∧ body s₀ = (.ok a, s₁) ∧
        s'.world = s₁.world.commitAs s₁.world.view := by
  obtain ⟨_, s₀, h₀, h₁⟩ := bind_ok.1 h
  obtain ⟨hnone, hlock, hw₀⟩ := begin_ok h₀
  obtain ⟨s₁, hbody, hw⟩ := closing_ok h₁
  exact ⟨hnone, hlock rfl, s₀, s₁, hw₀, hbody, hw⟩

theorem transaction_ok {body : Py α} {a : α} (h : transaction body s = (.ok a, s')) :
    s.world.working = none ∧ ∃ s₀ s₁,
      s₀.world = s.world.setWorking (some s.world.committed) ∧ body s₀ = (.ok a, s₁) ∧
        s'.world = s₁.world.commitAs s₁.world.view := by
  obtain ⟨_, s₀, h₀, h₁⟩ := bind_ok.1 h
  obtain ⟨hnone, -, hw₀⟩ := begin_ok h₀
  obtain ⟨s₁, hbody, hw⟩ := closing_ok h₁
  exact ⟨hnone, s₀, s₁, hw₀, hbody, hw⟩

/-- A block that raises commits nothing, however it raises. -/
theorem block_raisesClean {immediate : Bool} {body : Py α} (hbody : Keeps Session.committed body) :
    RaisesClean Session.committed (begin_ immediate >>= fun _ => closing body) :=
  .bind (keeps_committed_begin immediate) fun _ _ _ _ h => closing_error hbody h

end

end PaaRuntime
