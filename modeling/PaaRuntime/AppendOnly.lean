import PaaRuntime.OperatingSealed
import PaaRuntime.SqliteStore

/-!
# What statements the event table outlasts

The table `autonomy_events` as SQLite keeps it, under any data-change statement of a connection that is
set up as `SqliteEventStore` does. The triggers refuse UPDATE and DELETE; but REPLACE deletes the rows
in its way, and without `recursive_triggers`, which no PRAGMA of `__init__` turns on, the delete trigger
does not see it. `append_only_iff` says exactly which statements keep the fourteen fields of every row.
-/

namespace PaaRuntime

/-- What a column of type `INTEGER` keeps besides null. -/
inductive SqlInteger
  | integer (i : ℤ)
  | real (q : PyFloat)
  | text (s : Text)
  | blob (b : List UInt8)
  deriving DecidableEq

/-- The values of an INSERT into `autonomy_events`, with the affinities of the columns applied. The rowid
is the one that is given, or else the one that SQLite picks. -/
structure EventValues where
  rowid : ℤ
  eventSchema : Option SqlText
  id : Option SqlText
  motionId : Option SqlText
  task : Option SqlText
  declarationVersion : Option SqlInteger
  scope : Option SqlText
  event : Option SqlText
  fromPosition : Option SqlText
  toPosition : Option SqlText
  evidenceRef : Option SqlText
  evidenceSha256 : Option SqlText
  actor : Option SqlText
  reason : Option SqlText
  createdAt : Option SqlText

/-- The fourteen fields of a row of `autonomy_events`. `TEXT PRIMARY KEY` admits null. -/
structure EventFields where
  eventSchema : SqlText
  id : Option SqlText
  motionId : SqlText
  task : SqlText
  declarationVersion : SqlInteger
  scope : Option SqlText
  event : SqlText
  fromPosition : SqlText
  toPosition : SqlText
  evidenceRef : SqlText
  evidenceSha256 : SqlText
  actor : SqlText
  reason : SqlText
  createdAt : SqlText
  deriving DecidableEq

/-- A row of `autonomy_events`, whichever connection has written it. -/
structure EventRow where
  rowid : ℤ
  fields : EventFields
  deriving DecidableEq

/-- `CHECK(column IN (...))`. -/
def checkOneOf (constraint : String) (allowed : List String) (v : SqlText) : Except PyError Unit :=
  if v ∈ allowed.map fun s => SqlText.text (Text.lit s) then .ok ()
  else .error ⟨.integrityError, s!"CHECK constraint failed: {constraint}"⟩

/-- The row that values are stored as: `NOT NULL` by column, then the `CHECK`s. -/
def EventValues.asRow (v : EventValues) : Except PyError EventRow := do
  let eventSchema ← notNull "event_schema" v.eventSchema
  let motionId ← notNull "motion_id" v.motionId
  let task ← notNull "task" v.task
  let declarationVersion ← notNull "declaration_version" v.declarationVersion
  let event ← notNull "event" v.event
  let fromPosition ← notNull "from_position" v.fromPosition
  let toPosition ← notNull "to_position" v.toPosition
  let evidenceRef ← notNull "evidence_ref" v.evidenceRef
  let evidenceSha256 ← notNull "evidence_sha256" v.evidenceSha256
  let actor ← notNull "actor" v.actor
  let reason ← notNull "reason" v.reason
  let createdAt ← notNull "created_at" v.createdAt
  checkOneOf ("event IN (\n        'motion_proposed', 'motion_approved', " ++
      "'motion_rejected', 'position_changed'\n    )")
    ["motion_proposed", "motion_approved", "motion_rejected", "position_changed"] event
  checkOneOf "from_position IN (\n        'manual', 'hitl', 'hotl', 'autonomous'\n    )"
    ["manual", "hitl", "hotl", "autonomous"] fromPosition
  checkOneOf "to_position IN (\n        'manual', 'hitl', 'hotl', 'autonomous'\n    )"
    ["manual", "hitl", "hotl", "autonomous"] toPosition
  return ⟨v.rowid, ⟨eventSchema, v.id, motionId, task, declarationVersion, v.scope, event,
    fromPosition, toPosition, evidenceRef, evidenceSha256, actor, reason, createdAt⟩⟩

namespace SqliteEventStore

/-- `_SCHEMA_DDL`: the rowid, the primary key, the unique index and the two triggers. -/
def eventTable : GuardedTable EventValues PyError EventRow where
  asRow := EventValues.asRow
  keys := [⟨"autonomy_events.rowid", fun a b => decide (a.rowid = b.rowid)⟩,
    ⟨"autonomy_events.id", fun a b => decide (a.fields.id ≠ none ∧ a.fields.id = b.fields.id)⟩,
    ⟨"autonomy_events.motion_id, autonomy_events.event", fun a b =>
      decide (a.fields.motionId = b.fields.motionId ∧ a.fields.event = b.fields.event)⟩]

/-- The PRAGMAs of `__init__`. -/
def pragmas : List (String × String) := [("journal_mode", "WAL"), ("synchronous", "NORMAL")]

def recursiveTriggers : Bool := pragmas.contains ("recursive_triggers", "ON")

/-- The statement is an INSERT OR REPLACE that goes through, and the fields of some row do not outlast
the rows that it puts. -/
def Overwrites (t : List EventRow) (stmt : Statement EventValues EventRow) : Prop :=
  ∃ clauses rows put, stmt = .insert .replace clauses rows ∧
    eventTable.putRows recursiveTriggers .replace clauses rows t = (put, none) ∧
    ∃ r ∈ t, ¬eventTable.Outlasts EventRow.fields t put r

/-- The fourteen fields of every row are there after a statement, exactly unless it overwrites one. -/
theorem append_only_iff (t : List EventRow) (stmt : Statement EventValues EventRow) :
    GuardedTable.Kept EventRow.fields t (eventTable.exec recursiveTriggers t stmt).2 ↔
      ¬Overwrites t stmt := by
  rw [GuardedTable.exec_keeps_iff]
  constructor
  · rintro h ⟨clauses, rows, put, hstmt, hput, r, hr, hlost⟩
    exact hlost (h clauses rows put hstmt hput r hr)
  · intro h clauses rows put hstmt hput r hr
    by_contra hlost
    exact h ⟨clauses, rows, put, hstmt, hput, r, hr, hlost⟩

/-- A row of a proposal. -/
def proposedRow : EventRow :=
  ⟨1, .text "paa-autonomy-event/0.1.0-draft", some (.text "event-1"), .text "motion-1",
    .text "reply_draft", .integer 1, none, .text "motion_proposed", .text "hitl", .text "hotl",
    .text "evidence/paa/reply_draft.json", .text "digest", .text "user:operator",
    .text "window met", .text "2026-01-01T00:00:00.000000Z"⟩

/-- `INSERT OR REPLACE` of its id, with another motion and another reason. -/
def replaceProposed : Statement EventValues EventRow :=
  .insert .replace [] [⟨2, some (.text "paa-autonomy-event/0.1.0-draft"), some (.text "event-1"),
    some (.text "motion-2"), some (.text "reply_draft"), some (.integer 1), none,
    some (.text "motion_proposed"), some (.text "hitl"), some (.text "autonomous"),
    some (.text "evidence/paa/reply_draft.json"), some (.text "digest"),
    some (.text "user:operator"), some (.text "changed"),
    some (.text "2026-01-01T00:00:00.000000Z")⟩]

/-- The row is gone. -/
theorem append_only_fails : ¬GuardedTable.Kept EventRow.fields [proposedRow]
    (eventTable.exec recursiveTriggers [proposedRow] replaceProposed).2 := by
  intro h
  obtain ⟨r, hr, hfields⟩ := h proposedRow (List.mem_singleton_self _)
  have hlost : ∀ r ∈ (eventTable.exec recursiveTriggers [proposedRow] replaceProposed).2,
      r.fields ≠ proposedRow.fields := by decide +kernel
  exact hlost r hr hfields

end SqliteEventStore

/-! ## The INSERT of the store -/

/-- The parameters of the INSERT of `insert_autonomy_event`. -/
def Columns.values (c : Columns) (rowid : ℤ) : EventValues where
  rowid := rowid
  eventSchema := c.eventSchema.map fun s => .text (Text.lit s)
  id := some (.text (Text.lit c.id))
  motionId := c.motionId.map fun s => .text (Text.lit s)
  task := c.task.map fun s => .text (Text.lit s)
  declarationVersion := c.declarationVersion.map .integer
  scope := c.scope.map fun s => .text (Text.lit s)
  event := c.event.map fun s => .text (Text.lit s)
  fromPosition := c.fromPosition.map fun s => .text (Text.lit s)
  toPosition := c.toPosition.map fun s => .text (Text.lit s)
  evidenceRef := c.evidenceRef.map fun s => .text (Text.lit s)
  evidenceSha256 := c.evidenceSha256.map fun s => .text (Text.lit s)
  actor := c.actor.map fun s => .text (Text.lit s)
  reason := c.reason.map fun s => .text (Text.lit s)
  createdAt := c.createdAt.map fun s => .text (Text.lit s)

/-- A row of the store, as any connection sees it. -/
def AutonomyEvent.stored (e : AutonomyEvent) (rowid : ℤ) : EventRow :=
  ⟨rowid, .text (Text.lit e.eventSchema), some (.text (Text.lit e.id)), .text (Text.lit e.motionId),
    .text (Text.lit e.task), .integer e.declarationVersion, e.scope.map fun s => .text (Text.lit s),
    .text (Text.lit e.event.text), .text (Text.lit e.fromPosition.text),
    .text (Text.lit e.toPosition.text), .text (Text.lit e.evidenceRef),
    .text (Text.lit e.evidenceSha256), .text (Text.lit e.actor), .text (Text.lit e.reason),
    .text (Text.lit e.createdAt)⟩

/-- A table of the store, with the rowids that SQLite picks. -/
def Table.stored (t : Table) : List EventRow := t.mapIdx fun i e => e.stored (i + 1)

theorem char_toNat_lt (c : Char) : c.toNat < 0x110000 := by
  rcases c.valid with h | h
  · exact lt_trans h (by decide)
  · exact h.2

theorem Text.lit_injective : Function.Injective Text.lit := by
  intro s s' h
  apply String.toList_inj.1
  refine List.map_injective_iff.2 ?_ h
  intro c d hcd
  have hval := congrArg Fin.val hcd
  rw [Fin.val_ofNat, Fin.val_ofNat, Nat.mod_eq_of_lt (char_toNat_lt c),
    Nat.mod_eq_of_lt (char_toNat_lt d)] at hval
  exact Char.toNat_inj.1 hval

section

variable {constraint s : String} {c : Columns} {rowid : ℤ} {recursive : Bool}

/-- A `CHECK` over texts, where a function reads exactly those. -/
theorem checkOneOf_text {α : Type} {f : String → Option α} {allowed : List String}
    (h : s ∈ allowed ↔ ∃ a, f s = some a) :
    checkOneOf constraint allowed (.text (Text.lit s)) = (checkIn constraint (f s)).map fun _ => () := by
  have hmem : SqlText.text (Text.lit s) ∈ (allowed.map fun s => SqlText.text (Text.lit s)) ↔
      s ∈ allowed := by
    rw [List.mem_map]
    constructor
    · rintro ⟨s', hs', heq⟩
      rw [← Text.lit_injective (SqlText.text.inj heq)]
      exact hs'
    · intro hs
      exact ⟨s, hs, rfl⟩
  unfold checkOneOf
  cases hf : f s with
  | some a =>
    rw [if_pos (hmem.2 (h.2 ⟨a, hf⟩))]
    rfl
  | none =>
    rw [if_neg]
    · rfl
    · rw [hmem, h, hf]
      rintro ⟨a, ⟨⟩⟩

theorem mem_positions :
    s ∈ ["manual", "hitl", "hotl", "autonomous"] ↔ ∃ p, AutonomyPosition.ofText? s = some p := by
  simp only [AutonomyPosition.ofText?_eq_some, List.mem_cons, List.not_mem_nil, or_false]
  constructor
  · rintro (rfl | rfl | rfl | rfl)
    exacts [⟨.manual, rfl⟩, ⟨.hitl, rfl⟩, ⟨.hotl, rfl⟩, ⟨.autonomous, rfl⟩]
  · rintro ⟨p, rfl⟩
    cases p <;> decide

theorem mem_eventTypes :
    s ∈ ["motion_proposed", "motion_approved", "motion_rejected", "position_changed"] ↔
      ∃ e, AutonomyEventType.ofText? s = some e := by
  simp only [AutonomyEventType.ofText?_eq_some, List.mem_cons, List.not_mem_nil, or_false]
  constructor
  · rintro (rfl | rfl | rfl | rfl)
    exacts [⟨.motionProposed, rfl⟩, ⟨.motionApproved, rfl⟩, ⟨.motionRejected, rfl⟩,
      ⟨.positionChanged, rfl⟩]
  · rintro ⟨p, rfl⟩
    cases p <;> decide

/-- The values of the store's INSERT are stored as the row that the store's model has. -/
theorem asRow_values : (c.values rowid).asRow = c.asRow.map (·.stored rowid) := by
  obtain ⟨schema, id, motion, task, version, scope, event, fromP, toP, ref, sha, actor, reason,
    created⟩ := c
  rcases schema with _ | schema
  · rfl
  rcases motion with _ | motion
  · rfl
  rcases task with _ | task
  · rfl
  rcases version with _ | version
  · rfl
  rcases event with _ | event
  · rfl
  rcases fromP with _ | fromP
  · rfl
  rcases toP with _ | toP
  · rfl
  rcases ref with _ | ref
  · rfl
  rcases sha with _ | sha
  · rfl
  rcases actor with _ | actor
  · rfl
  rcases reason with _ | reason
  · rfl
  rcases created with _ | created
  · rfl
  unfold EventValues.asRow Columns.asRow Columns.values
  simp only [notNull, Option.map_some, bind, Except.bind]
  rw [checkOneOf_text mem_eventTypes, checkOneOf_text mem_positions, checkOneOf_text mem_positions]
  cases hevent : AutonomyEventType.ofText? event with
  | none => rfl
  | some kind =>
    cases hfrom : AutonomyPosition.ofText? fromP with
    | none => rfl
    | some p =>
      cases hto : AutonomyPosition.ofText? toP with
      | none => rfl
      | some q =>
        rw [AutonomyEventType.ofText?_eq_some] at hevent
        rw [AutonomyPosition.ofText?_eq_some] at hfrom hto
        subst hevent hfrom hto
        rfl

open SqliteEventStore in
/-- A fresh rowid aside, a row violates in the stored table the key that it violates in the store's. -/
theorem violated_stored {t : Table} {e : AutonomyEvent} :
    (eventTable.violated t.stored (e.stored (t.length + 1))).map UniqueKey.name =
      (autonomyEvents.violated t e).map UniqueKey.name := by
  have hany : ∀ p : EventRow → Bool, ∀ q : AutonomyEvent → Bool,
      (∀ i : ℕ, i < t.length → ∀ r : AutonomyEvent, p (r.stored (i + 1)) = q r) →
        t.stored.any p = t.any q := by
    intro p q hpq
    rw [Bool.eq_iff_iff, List.any_eq_true, List.any_eq_true]
    constructor
    · rintro ⟨r, hr, hp⟩
      obtain ⟨i, hi, rfl⟩ := List.mem_mapIdx.1 hr
      rw [hpq i hi] at hp
      exact ⟨t[i], List.getElem_mem hi, hp⟩
    · rintro ⟨r, hr, hq⟩
      obtain ⟨i, hi, rfl⟩ := List.getElem_of_mem hr
      refine ⟨_, List.mem_mapIdx.2 ⟨i, hi, rfl⟩, ?_⟩
      rw [hpq i hi, hq]
  have hinj : ∀ {s s' : String}, SqlText.text (Text.lit s) = .text (Text.lit s') ↔ s = s' :=
    fun {s s'} => ⟨fun h => Text.lit_injective (SqlText.text.inj h), fun h => by rw [h]⟩
  have hkind : ∀ {k k' : AutonomyEventType}, k.text = k'.text ↔ k = k' := by
    intro k k'
    cases k <;> cases k' <;> decide
  have hrowid := hany (fun r => decide ((e.stored (t.length + 1)).rowid = r.rowid)) (fun _ => false)
    fun i hi r => decide_eq_false (by show (t.length : ℤ) + 1 ≠ i + 1; omega)
  have hid := hany (fun r => decide ((e.stored (t.length + 1)).fields.id ≠ none ∧
      (e.stored (t.length + 1)).fields.id = r.fields.id)) (fun r => decide (e.id = r.id))
    fun i hi r => by simp [AutonomyEvent.stored, hinj]
  have hmotion := hany (fun r => decide ((e.stored (t.length + 1)).fields.motionId =
      r.fields.motionId ∧ (e.stored (t.length + 1)).fields.event = r.fields.event))
    (fun r => decide (e.motionId = r.motionId ∧ e.event = r.event))
    fun i hi r => by simp [AutonomyEvent.stored, hinj, hkind]
  unfold GuardedTable.violated eventTable autonomyEvents
  simp only [List.find?_cons, List.find?_nil, hrowid, hid, hmotion]
  rw [List.any_eq_false.2 fun _ _ => Bool.false_ne_true]
  cases t.any fun r => decide (e.id = r.id) with
  | true => rfl
  | false => cases t.any fun r => decide (e.motionId = r.motionId ∧ e.event = r.event) <;> rfl

open SqliteEventStore in
/-- **The INSERT of the store is a statement of SQL**: the row is put at the end of the table, or the
statement fails and changes nothing. -/
theorem insertRow_exec {t : Table} :
    eventTable.exec recursive t.stored (.insert .abort [] [c.values (t.length + 1)]) =
      match autonomyEvents.insertRow t c with
      | .ok t' => (.ok (), Table.stored t')
      | .error e => (.error e, t.stored) := by
  rw [GuardedTable.exec_insertRow]
  unfold GuardedTable.insertRow
  have hrow : eventTable.asRow (c.values (t.length + 1)) =
      (autonomyEvents.asRow c).map (·.stored (t.length + 1)) := asRow_values
  rw [hrow]
  cases autonomyEvents.asRow c with
  | error e => rfl
  | ok e =>
    have hviolated := @violated_stored t e
    simp only [Except.map]
    cases hv : autonomyEvents.violated t e with
    | some k =>
      rw [hv] at hviolated
      obtain ⟨k', hk', hname⟩ := Option.map_eq_some_iff.1 hviolated
      rw [hk']
      simp only [hname]
    | none =>
      rw [hv, Option.map_none, Option.map_eq_none_iff] at hviolated
      rw [hviolated]
      show (Except.ok (), t.stored ++ [e.stored (t.length + 1)]) = (.ok (), Table.stored (t ++ [e]))
      rw [Table.stored, Table.stored, List.mapIdx_concat]

end

end PaaRuntime
