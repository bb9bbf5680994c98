import PaaRuntime.SqliteStore

/-!
# Positions and motions

The current position and the view of a motion are never stored: one is folded from the latest
`position_changed` row of a triple, the other projected from the rows of a motion. The checks of a
scope and of a transition against a declaration stand here as well.
-/

namespace PaaRuntime

open Prog

/-! ## Current position -/

/-- The current position: where the latest change ended, or the declared initial position. -/
def currentPosition (d : PaaTaskDeclaration) (latest : Option AutonomyEvent) : AutonomyPosition :=
  match latest with
  | some e => e.toPosition
  | none => d.initialPosition

/-- `_fold_current_position`. -/
def foldCurrentPosition (d : PaaTaskDeclaration) (scope : Option String) :
    Py (AutonomyPosition × Option AutonomyEvent) := do
  let latest ← getLatestPositionChangedEvent (d.triple scope)
  return (currentPosition d latest, latest)

/-- `_validate_scope`. -/
def validateScope (d : PaaTaskDeclaration) (scope : Option String) : Except PyError Unit :=
  match d.scopes with
  | none => require (scope = none) ⟨.paaValidationError, s!"task {pyRepr d.task} declares no " ++
      s!"scopes; scope must be None, got {pyReprOption scope}"⟩
  | some scopes => require (∃ s ∈ scopes, scope = some s) ⟨.paaValidationError,
      s!"scope {pyReprOption scope} is not permitted for task {pyRepr d.task}; must be one of " ++
        pyReprList (pySorted scopes)⟩

/-- `_require_declared_transition`. -/
def requireDeclaredTransition (d : PaaTaskDeclaration) (fromPosition toPosition : AutonomyPosition) :
    Except PyError Unit :=
  require (d.Declares fromPosition toPosition) ⟨.paaTransitionError,
    s!"{pyRepr d.task} at declaration version {d.version} declares no transition from " ++
      s!"{pyRepr fromPosition.text} to {pyRepr toPosition.text} (only promotion " ++
      s!"{d.promotion.fromPosition.text}->{d.promotion.toPosition.text} or demotion " ++
      s!"{d.demotion.fromPosition.text}->{d.demotion.toPosition.text})"⟩

/-- `ResolvedPosition`, which is also what `show` returns. -/
structure ResolvedPosition where
  task : String
  declarationVersion : Int
  deployment : Deployment
  initialPosition : AutonomyPosition
  scope : Option String
  currentPosition : AutonomyPosition
  latestPositionEvent : Option EventMapping
  deriving DecidableEq

/-- What resolving makes of a declaration and the latest change. -/
def resolvedPosition (d : PaaTaskDeclaration) (scope : Option String)
    (latest : Option AutonomyEvent) : ResolvedPosition where
  task := d.task
  declarationVersion := d.version
  deployment := d.deployment
  initialPosition := d.initialPosition
  scope := scope
  currentPosition := PaaRuntime.currentPosition d latest
  latestPositionEvent := latest.map AutonomyEvent.toJsonDict

/-- `resolve_current_position`. -/
def resolveCurrentPosition (config : RuntimeConfig) (task : String) (scope : Option String) :
    Py ResolvedPosition := do
  let d ← loadDeclaration config task
  validateScope d scope
  let (_, latest) ← foldCurrentPosition d scope
  return resolvedPosition d scope latest

/-- `show`. -/
def show_ (config : RuntimeConfig) (task : String) (scope : Option String) : Py ResolvedPosition :=
  resolveCurrentPosition config task scope

/-- `PositionSource`. -/
inductive PositionSource
  | declarationInitial | positionEvent
  deriving DecidableEq, Repr

/-- `PositionResolution`. -/
structure PositionResolution where
  task : String
  declarationVersion : Int
  deployment : Deployment
  scope : Option String
  position : AutonomyPosition
  source : PositionSource
  sourceEventId : Option (Bound String)
  deriving DecidableEq

/-- `to_position_resolution`. -/
def toPositionResolution (r : ResolvedPosition) : PositionResolution where
  task := r.task
  declarationVersion := r.declarationVersion
  deployment := r.deployment
  scope := r.scope
  position := r.currentPosition
  source := if r.latestPositionEvent.isSome then .positionEvent else .declarationInitial
  sourceEventId := r.latestPositionEvent.bind (·.id)

/-- `resolve_position`. -/
def resolvePosition (config : RuntimeConfig) (task : String) (scope : Option String) :
    Py PositionResolution := toPositionResolution <$> resolveCurrentPosition config task scope

/-! ## Motions -/

/-- `Motion`. -/
structure Motion where
  motionId : String
  task : String
  declarationVersion : Int
  scope : Option String
  fromPosition : AutonomyPosition
  toPosition : AutonomyPosition
  status : MotionStatus
  evidenceRef : String
  evidenceSha256 : String
  proposedAt : String
  proposedBy : String
  proposedReason : String
  approvedAt : Option String
  approvedBy : Option String
  approvedReason : Option String
  rejectedAt : Option String
  rejectedBy : Option String
  rejectedReason : Option String
  executedAt : Option String
  deriving DecidableEq, Repr

/-- `{row.event: row for row in events}.get(kind)`: the last row of a kind. -/
def byEvent (events : Table) (kind : AutonomyEventType) : Option AutonomyEvent :=
  (events.filter (·.event = kind)).getLast?

/-- The status that `_project_motion` reads off the rows of a motion. -/
def motionStatus (events : Table) : MotionStatus :=
  if (byEvent events .positionChanged).isSome then .executed
  else if (byEvent events .motionRejected).isSome then .rejected
  else if (byEvent events .motionApproved).isSome then .approved
  else .proposed

/-- `_project_motion`. -/
def projectMotion (events : Table) : Except PyError Motion :=
  match byEvent events .motionProposed with
  | none => .error ⟨.paaCorruptHistoryError, "motion has no motion_proposed event to project from"⟩
  | some proposed =>
    let approved := byEvent events .motionApproved
    let rejected := byEvent events .motionRejected
    let changed := byEvent events .positionChanged
    .ok
      { motionId := proposed.motionId
        task := proposed.task
        declarationVersion := proposed.declarationVersion
        scope := proposed.scope
        fromPosition := proposed.fromPosition
        toPosition := proposed.toPosition
        status := motionStatus events
        evidenceRef := proposed.evidenceRef
        evidenceSha256 := proposed.evidenceSha256
        proposedAt := proposed.createdAt
        proposedBy := proposed.actor
        proposedReason := proposed.reason
        approvedAt := approved.map (·.createdAt)
        approvedBy := approved.map (·.actor)
        approvedReason := approved.map (·.reason)
        rejectedAt := rejected.map (·.createdAt)
        rejectedBy := rejected.map (·.actor)
        rejectedReason := rejected.map (·.reason)
        executedAt := changed.map (·.createdAt) }

/-- The rows of each motion, by motions in the order they first appear. -/
def grouped (events : Table) : List (String × Table) :=
  (events.map (·.motionId)).eraseDups.map fun m => (m, events.filter (·.motionId = m))

/-- The motions that do project, sorted by `(proposed_at, motion_id)`. -/
def sortedMotions (motions : List Motion) : List Motion :=
  motions.insertionSort fun a b =>
    (toLex (a.proposedAt, a.motionId) : Stamp) ≤ toLex (b.proposedAt, b.motionId)

/-- `list_motions`. -/
def listMotions (status task : Option String) : Py (List Motion) := do
  require (∀ s ∈ status, (MotionStatus.ofText? s).isSome) ⟨.paaValidationError,
    s!"status {pyReprOption status} is not a valid motion status (must be one of " ++
      pyReprList (pySorted ["proposed", "approved", "rejected", "executed"]) ++ ")"⟩
  let groups := grouped (← getAutonomyEvents task)
  -- project every group before failing, so that the error names all the corrupt motions
  let corrupt := (groups.filter fun g => (projectMotion g.2).toOption.isNone).map (·.1)
  require (corrupt = []) ⟨.paaCorruptHistoryError,
    s!"motions have no motion_proposed event: {pyReprList (pySorted corrupt)}"⟩
  let motions := groups.filterMap fun g => (projectMotion g.2).toOption
  return sortedMotions (motions.filter fun m => ∀ s ∈ status, m.status.text = s)

/-! ## What these say -/

section

variable {s s' : Session}

theorem validateScope_ok {d : PaaTaskDeclaration} {scope : Option String} {u : Unit} :
    validateScope d scope = .ok u ↔ d.Permits scope := by
  unfold validateScope PaaTaskDeclaration.Permits
  rcases d.scopes with _ | scopes
  · rw [require_ok]
    cases scope <;> simp
  · rw [require_ok]
    cases scope <;> simp

theorem requireDeclaredTransition_ok {d : PaaTaskDeclaration} {p q : AutonomyPosition} {u : Unit} :
    requireDeclaredTransition d p q = .ok u ↔ d.Declares p q := require_ok

theorem keeps_world_foldCurrentPosition (d : PaaTaskDeclaration) (scope : Option String) :
    Keeps Session.world (foldCurrentPosition d scope) :=
  (keeps_world_getLatestPositionChangedEvent _).bind fun _ => Keeps.pure _

/-- Folding reads the latest change of the triple. -/
theorem foldCurrentPosition_ok {d : PaaTaskDeclaration} {scope : Option String}
    {r : AutonomyPosition × Option AutonomyEvent} (h : foldCurrentPosition d scope s = (.ok r, s')) :
    IsInt64 d.version ∧ s'.world = s.world ∧
      r = (currentPosition d (latestPositionChanged (d.triple scope) s.world.view),
        latestPositionChanged (d.triple scope) s.world.view) := by
  obtain ⟨latest, s₁, h₁, h₂⟩ := bind_ok.1 h
  obtain ⟨hv, rfl, hw⟩ := getLatestPositionChangedEvent_ok h₁
  obtain ⟨rfl, rfl⟩ := pure_ok.1 h₂
  exact ⟨hv, hw, rfl⟩

theorem loadDeclaration_ok {config : RuntimeConfig} {task : String} {d : PaaTaskDeclaration}
    (h : loadDeclaration config task s = (.ok d, s')) :
    getPaaDeclaration config s.world.directory task = .ok d ∧ s'.world = s.world := by
  obtain ⟨_, s₁, -, hw, h₁⟩ := keeps_world_tick.bind_ok h
  rw [gets_bind_run] at h₁
  obtain ⟨hd, rfl⟩ := liftM_ok.1 h₁
  exact ⟨hw ▸ hd, hw⟩

/-- Without a fault in store a load reads the directory. -/
theorem loadDeclaration_of_quiet (hquiet : s.io.faults.head = none) (config : RuntimeConfig)
    (task : String) :
    loadDeclaration config task s = (getPaaDeclaration config s.world.directory task,
      { s with io := { s.io with faults := s.io.faults.tail } }) := by
  unfold loadDeclaration
  rw [bind_run, tick_of_quiet hquiet]
  rfl

theorem loadDeclaration_of_fault {fault : Fault} (h : s.io.faults.head = some fault)
    (config : RuntimeConfig) (task : String) :
    loadDeclaration config task s =
      (.error fault.toError, { s with io := { s.io with faults := s.io.faults.tail } }) := by
  unfold loadDeclaration
  rw [bind_run, tick_of_fault h]

theorem keeps_world_resolveCurrentPosition (config : RuntimeConfig) (task : String)
    (scope : Option String) : Keeps Session.world (resolveCurrentPosition config task scope) :=
  (keeps_world_loadDeclaration _ _).bind fun _ => (Keeps.lift _).bind fun _ =>
    (keeps_world_foldCurrentPosition _ _).bind fun _ => Keeps.pure _

/-- Resolving reads the directory and the latest change as they stand. -/
theorem resolveCurrentPosition_ok {config : RuntimeConfig} {task : String} {scope : Option String}
    {r : ResolvedPosition} (h : resolveCurrentPosition config task scope s = (.ok r, s')) :
    s'.world = s.world ∧ ∃ d, getPaaDeclaration config s.world.directory task = .ok d ∧
      d.Permits scope ∧ IsInt64 d.version ∧
      r = resolvedPosition d scope (latestPositionChanged (d.triple scope) s.world.view) := by
  obtain ⟨d, s₁, h₁, h₂⟩ := bind_ok.1 h
  obtain ⟨hd, hw₁⟩ := loadDeclaration_ok h₁
  obtain ⟨_, s₂, h₃, h₄⟩ := bind_ok.1 h₂
  obtain ⟨hp, rfl⟩ := liftM_ok.1 h₃
  obtain ⟨p, s₃, h₅, h₆⟩ := bind_ok.1 h₄
  obtain ⟨hv, hw₃, rfl⟩ := foldCurrentPosition_ok h₅
  obtain ⟨rfl, rfl⟩ := pure_ok.1 h₆
  refine ⟨hw₃.trans hw₁, d, hd, validateScope_ok.1 hp, hv, ?_⟩
  rw [hw₁]

end

end PaaRuntime
