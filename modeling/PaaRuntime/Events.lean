import Mathlib.Data.Prod.Lex
import Mathlib.Data.String.Basic
import PaaRuntime.Errors
import PaaRuntime.Lib.StampedLog

/-!
# The autonomy event stream

The vocabulary of `events.py` and the row type of `store.py`: positions, event kinds, motion
statuses, and `AutonomyEvent` with its fourteen fields. Rows are read in the order of their
stamp `(created_at, id)`; they are partitioned by the triple `(task, declaration_version, scope)`
and, within a motion, must agree on the seven identity fields.
-/

namespace PaaRuntime

/-- `AUTONOMY_POSITIONS`. -/
inductive AutonomyPosition
  | manual | hitl | hotl | autonomous
  deriving DecidableEq, Repr

/-- `AUTONOMY_EVENT_TYPES`. -/
inductive AutonomyEventType
  | motionProposed | motionApproved | motionRejected | positionChanged
  deriving DecidableEq, Repr

/-- `MOTION_STATUSES`. -/
inductive MotionStatus
  | proposed | approved | rejected | executed
  deriving DecidableEq, Repr

def AutonomyPosition.text : AutonomyPosition → String
  | .manual => "manual"
  | .hitl => "hitl"
  | .hotl => "hotl"
  | .autonomous => "autonomous"

def AutonomyPosition.ofText? : String → Option AutonomyPosition
  | "manual" => some .manual
  | "hitl" => some .hitl
  | "hotl" => some .hotl
  | "autonomous" => some .autonomous
  | _ => none

def AutonomyEventType.text : AutonomyEventType → String
  | .motionProposed => "motion_proposed"
  | .motionApproved => "motion_approved"
  | .motionRejected => "motion_rejected"
  | .positionChanged => "position_changed"

def AutonomyEventType.ofText? : String → Option AutonomyEventType
  | "motion_proposed" => some .motionProposed
  | "motion_approved" => some .motionApproved
  | "motion_rejected" => some .motionRejected
  | "position_changed" => some .positionChanged
  | _ => none

def MotionStatus.text : MotionStatus → String
  | .proposed => "proposed"
  | .approved => "approved"
  | .rejected => "rejected"
  | .executed => "executed"

def MotionStatus.ofText? : String → Option MotionStatus
  | "proposed" => some .proposed
  | "approved" => some .approved
  | "rejected" => some .rejected
  | "executed" => some .executed
  | _ => none

@[simp] theorem AutonomyPosition.ofText?_text (p : AutonomyPosition) :
    AutonomyPosition.ofText? p.text = some p := by cases p <;> rfl

@[simp] theorem AutonomyEventType.ofText?_text (e : AutonomyEventType) :
    AutonomyEventType.ofText? e.text = some e := by cases e <;> rfl

theorem AutonomyPosition.ofText?_eq_some {s : String} {p : AutonomyPosition} :
    AutonomyPosition.ofText? s = some p ↔ s = p.text := by
  refine ⟨fun h => ?_, fun h => h ▸ ofText?_text p⟩
  unfold AutonomyPosition.ofText? at h
  split at h <;> cases h <;> rfl

theorem AutonomyEventType.ofText?_eq_some {s : String} {e : AutonomyEventType} :
    AutonomyEventType.ofText? s = some e ↔ s = e.text := by
  refine ⟨fun h => ?_, fun h => h ▸ ofText?_text e⟩
  unfold AutonomyEventType.ofText? at h
  split at h <;> cases h <;> rfl

/-- `CURRENT_EVENT_SCHEMA`. -/
def currentEventSchema : String := "paa-autonomy-event/0.1.0-draft"

/-- One row of the append-only autonomy event stream. -/
structure AutonomyEvent where
  eventSchema : String := currentEventSchema
  id : String
  motionId : String
  task : String
  declarationVersion : Int
  scope : Option String
  event : AutonomyEventType
  fromPosition : AutonomyPosition
  toPosition : AutonomyPosition
  evidenceRef : String
  evidenceSha256 : String
  actor : String
  reason : String
  createdAt : String
  deriving DecidableEq, Repr

/-- The partition of authority a row belongs to. -/
structure Triple where
  task : String
  declarationVersion : Int
  scope : Option String
  deriving DecidableEq, Repr

/-- `_IDENTITY_FIELDS`: what every later event of a motion copies from its proposal. -/
structure Identity where
  task : String
  declarationVersion : Int
  scope : Option String
  fromPosition : AutonomyPosition
  toPosition : AutonomyPosition
  evidenceRef : String
  evidenceSha256 : String
  deriving DecidableEq, Repr

/-- A point of the reading order: `(created_at, id)` compared as a tuple of texts. -/
abbrev Stamp := String ×ₗ String

namespace AutonomyEvent

def triple (e : AutonomyEvent) : Triple := ⟨e.task, e.declarationVersion, e.scope⟩

def identity (e : AutonomyEvent) : Identity :=
  ⟨e.task, e.declarationVersion, e.scope, e.fromPosition, e.toPosition, e.evidenceRef,
    e.evidenceSha256⟩

def stamp (e : AutonomyEvent) : Stamp := toLex (e.createdAt, e.id)

theorem stamp_lt_of_createdAt_lt {a b : AutonomyEvent} (h : a.createdAt < b.createdAt) :
    a.stamp < b.stamp := Prod.Lex.toLex_lt_toLex.2 (Or.inl h)

theorem id_eq_of_stamp_eq {a b : AutonomyEvent} (h : a.stamp = b.stamp) : a.id = b.id :=
  congrArg (fun s : Stamp => (ofLex s).2) h

theorem triple_eq_of_identity_eq {a b : AutonomyEvent} (h : a.identity = b.identity) :
    a.triple = b.triple := by
  simp only [identity, Identity.mk.injEq] at h
  simp [triple, h]

end AutonomyEvent

/-- `_same_identity`. -/
def sameIdentity (a b : AutonomyEvent) : Bool := decide (a.identity = b.identity)

@[simp] theorem sameIdentity_iff {a b : AutonomyEvent} :
    sameIdentity a b = true ↔ a.identity = b.identity := decide_eq_true_iff

/-! ## Contract-shaped mappings -/

/-- A value handed to `sqlite3` as a parameter: one that can be bound, or one whose binding raises
(a list, an object, a text with a lone surrogate). -/
inductive Bound (α : Type)
  | value (a : α)
  | unbindable (e : PyError)
  deriving DecidableEq, Repr

/-- A `Mapping[str, Any]` at the fourteen contract keys: a key may be absent (`none`), a value may
be one that cannot be bound, and a value other than `id` may be null. -/
structure EventMapping where
  eventSchema : Option (Bound (Option String))
  id : Option (Bound String)
  motionId : Option (Bound (Option String))
  task : Option (Bound (Option String))
  declarationVersion : Option (Bound (Option Int))
  scope : Option (Bound (Option String))
  event : Option (Bound (Option String))
  fromPosition : Option (Bound (Option String))
  toPosition : Option (Bound (Option String))
  evidenceRef : Option (Bound (Option String))
  evidenceSha256 : Option (Bound (Option String))
  actor : Option (Bound (Option String))
  reason : Option (Bound (Option String))
  createdAt : Option (Bound (Option String))
  deriving DecidableEq, Repr

/-- `AutonomyEvent.to_json_dict`. -/
def AutonomyEvent.toJsonDict (e : AutonomyEvent) : EventMapping where
  eventSchema := some (.value (some e.eventSchema))
  id := some (.value e.id)
  motionId := some (.value (some e.motionId))
  task := some (.value (some e.task))
  declarationVersion := some (.value (some e.declarationVersion))
  scope := some (.value e.scope)
  event := some (.value (some e.event.text))
  fromPosition := some (.value (some e.fromPosition.text))
  toPosition := some (.value (some e.toPosition.text))
  evidenceRef := some (.value (some e.evidenceRef))
  evidenceSha256 := some (.value (some e.evidenceSha256))
  actor := some (.value (some e.actor))
  reason := some (.value (some e.reason))
  createdAt := some (.value (some e.createdAt))

end PaaRuntime
