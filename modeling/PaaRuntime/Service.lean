import PaaRuntime.EvidenceStore
import PaaRuntime.Motions

/-!
# Propose, approve, reject, demote

The four workflows, each cut into the parts that other clients' commits can come between: what
happens before the lock, and the `begin_immediate` block. A block may return early, so its body ends
in an `Exit`; the projection of the rows it fell through with happens after the commit.
-/

namespace PaaRuntime

open Prog

/-- How a block is left: by `return`, or through its end with the rows read last. -/
inductive Exit
  | returned (m : Motion)
  | fellThrough (events : Table)

/-- The motion a workflow returns after its block. -/
def Exit.motion : Exit → Except PyError Motion
  | .returned m => .ok m
  | .fellThrough events => projectMotion events

/-- The value of an option, or raise `e`. -/
def requireSome {α : Type} (o : Option α) (e : PyError) : Except PyError α :=
  match o with
  | some a => .ok a
  | none => .error e

/-- Insert the row that a fresh event id and then a fresh timestamp complete. -/
def recordEvent (row : String → String → AutonomyEvent) : Py Unit := do
  let eventId ← newEventId
  let createdAt ← newCreatedAt
  insertAutonomyEvent (row eventId createdAt).columns

/-! ## Propose -/

/-- The arguments of `propose`. -/
structure ProposeArgs where
  task : String
  scope : Option String
  toPosition : String
  evidencePath : String
  actor : Option String := none
  reason : Option String := none

/-- Load the declaration and validate the scope and the position. -/
def proposeLoad (config : RuntimeConfig) (args : ProposeArgs) :
    Py (PaaTaskDeclaration × AutonomyPosition) := do
  let d ← loadDeclaration config args.task
  validateScope d args.scope
  let toPosition ← requireSome (AutonomyPosition.ofText? args.toPosition) ⟨.paaValidationError,
    s!"to_position {pyRepr args.toPosition} is not a valid autonomy position (must be one of " ++
      pyReprList (pySorted ["manual", "hitl", "hotl", "autonomous"]) ++ ")"⟩
  return (d, toPosition)

/-- The advisory check before any evidence is written. -/
def proposeCheck (d : PaaTaskDeclaration) (scope : Option String) (toPosition : AutonomyPosition) :
    Py Unit := do
  let (provisionalFrom, _) ← foldCurrentPosition d scope
  requireDeclaredTransition d provisionalFrom toPosition

/-- Read the evidence file, which must not be empty. -/
def proposeRead (path : String) : Py Bytes := do
  let data ← readEvidenceFile path
  require (data ≠ []) ⟨.paaValidationError, s!"evidence file is empty: {path}"⟩
  return data

/-- The operator and the id of the new motion. -/
def proposeActor (config : RuntimeConfig) (actor : Option String) : Py (String × String) := do
  let resolvedActor ← resolveActor actor config.actorEnvVar
  let motionId ← newMotionId
  return (resolvedActor, motionId)

/-- What a proposal has settled before its block. -/
structure Draft where
  declaration : PaaTaskDeclaration
  scope : Option String
  toPosition : AutonomyPosition
  evidenceRef : String
  evidenceSha256 : String
  actor : String
  reason : Option String
  motionId : String

/-- The row of a proposal. -/
def Draft.proposal (p : Draft) (fromPosition : AutonomyPosition) (eventId createdAt : String) :
    AutonomyEvent where
  id := eventId
  motionId := p.motionId
  task := p.declaration.task
  declarationVersion := p.declaration.version
  scope := p.scope
  event := .motionProposed
  fromPosition := fromPosition
  toPosition := p.toPosition
  evidenceRef := p.evidenceRef
  evidenceSha256 := p.evidenceSha256
  actor := p.actor
  reason := (p.reason.filter (· ≠ "")).getD
    s!"requested transition {fromPosition.text} to {p.toPosition.text}"
  createdAt := createdAt

/-- The block of `propose`. -/
def proposeBlock (p : Draft) : Py Table := do
  let (fromPosition, _) ← foldCurrentPosition p.declaration p.scope
  requireDeclaredTransition p.declaration fromPosition p.toPosition
  recordEvent (p.proposal fromPosition)
  getAutonomyEventsForMotion p.motionId

/-- The block of `propose` and the projection after it. -/
def proposeLocked (p : Draft) : Py Motion := do
  let events ← beginImmediate (proposeBlock p)
  projectMotion events

/-- `propose`. -/
def propose [Hashlib] (config : RuntimeConfig) (args : ProposeArgs) : Py Motion := do
  let (d, toPosition) ← proposeLoad config args
  proposeCheck d args.scope toPosition
  let data ← proposeRead args.evidencePath
  let (evidenceRef, evidenceSha256) ← storeEvidence config.evidenceRoot data
  let (actor, motionId) ← proposeActor config args.actor
  proposeLocked ⟨d, args.scope, toPosition, evidenceRef, evidenceSha256, actor, args.reason,
    motionId⟩

/-! ## Approve -/

/-- The arguments of `approve` and `reject`. -/
structure MotionArgs where
  motionId : String
  reason : String
  actor : Option String := none

/-- A reason is required; then the operator. -/
def reasonedActor (config : RuntimeConfig) (purpose reason : String) (actor : Option String) :
    Py String := do
  require (reason ≠ "") ⟨.paaValidationError, s!"--reason is required to {purpose}"⟩
  resolveActor actor config.actorEnvVar

/-- A row that `approve` writes for a proposal. -/
def approvalRow (motionId : String) (proposed : AutonomyEvent) (actor reason : String)
    (kind : AutonomyEventType) (eventId createdAt : String) : AutonomyEvent where
  id := eventId
  motionId := motionId
  task := proposed.task
  declarationVersion := proposed.declarationVersion
  scope := proposed.scope
  event := kind
  fromPosition := proposed.fromPosition
  toPosition := proposed.toPosition
  evidenceRef := proposed.evidenceRef
  evidenceSha256 := proposed.evidenceSha256
  actor := actor
  reason := reason
  createdAt := createdAt

/-- The checks of a fresh approval: evidence, declaration, transition, no intervening change. -/
def approveChecks [Hashlib] (config : RuntimeConfig) (proposed : AutonomyEvent) : Py Unit := do
  tick
  let disk ← gets (·.world.disk)
  let _ ← verifyEvidence config.evidenceRoot disk proposed.evidenceRef proposed.evidenceSha256
  let d ← loadDeclaration config proposed.task
  require (d.version = proposed.declarationVersion) ⟨.paaTransitionError,
    s!"declaration version for {pyRepr proposed.task} has changed since this proposal was made " ++
      s!"({proposed.declarationVersion} -> {d.version}); propose a new motion against the " ++
      "current declaration"⟩
  requireDeclaredTransition d proposed.fromPosition proposed.toPosition
  let baseline ← getPositionChangedEventBefore proposed.triple proposed.createdAt proposed.id
  let latestNow ← getLatestPositionChangedEvent proposed.triple
  require (baseline.map (·.id) = latestNow.map (·.id)) ⟨.paaTransitionError,
    s!"an intervening position change occurred for task {pyRepr proposed.task} scope " ++
      s!"{pyReprOption proposed.scope} since this proposal was made — stale proposal"⟩

/-- The fresh approval path: nothing has been written for this motion yet. -/
def approveFresh [Hashlib] (config : RuntimeConfig) (args : MotionArgs) (actor : String)
    (proposed : AutonomyEvent) : Py Exit := do
  approveChecks config proposed
  forEach (fun kind => recordEvent (approvalRow args.motionId proposed actor args.reason kind))
    [.motionApproved, .positionChanged]
  let events ← getAutonomyEventsForMotion args.motionId
  return .fellThrough events

/-- The block of `approve`. -/
def approveBlock [Hashlib] (config : RuntimeConfig) (args : MotionArgs) (actor : String) :
    Py Exit := do
  let events ← getAutonomyEventsForMotion args.motionId
  let motion := pyRepr args.motionId
  let proposed ← requireSome (byEvent events .motionProposed)
    ⟨.paaNotFoundError, s!"no proposal found for motion_id {motion}"⟩
  match byEvent events .motionRejected, byEvent events .motionApproved,
      byEvent events .positionChanged with
  | some _, none, none => throw ⟨.paaTerminalError,
      s!"motion {motion} was rejected and cannot be approved"⟩
  | some _, _, _ => throw ⟨.paaCorruptHistoryError,
      s!"motion {motion} has both a rejection and an approval event"⟩
  | none, some approved, some changed =>
    if sameIdentity approved proposed ∧ sameIdentity changed proposed then
      return .returned (← projectMotion events)
    else
      throw ⟨.paaCorruptHistoryError,
        s!"motion {motion} has approved/changed events that do not match its proposal identity"⟩
  | none, some _, none => throw ⟨.paaCorruptHistoryError,
      s!"motion {motion} has a partial approval history: motion_approved exists without its " ++
        "sibling event"⟩
  | none, none, some _ => throw ⟨.paaCorruptHistoryError,
      s!"motion {motion} has a partial approval history: position_changed exists without its " ++
        "sibling event"⟩
  | none, none, none => approveFresh config args actor proposed

/-- The block of `approve` and the projection after it. -/
def approveLocked [Hashlib] (config : RuntimeConfig) (args : MotionArgs) (actor : String) :
    Py Motion := do
  let exit ← beginImmediate (approveBlock config args actor)
  exit.motion

/-- `approve`. -/
def approve [Hashlib] (config : RuntimeConfig) (args : MotionArgs) : Py Motion := do
  let actor ← reasonedActor config "approve a motion" args.reason args.actor
  approveLocked config args actor

/-! ## Reject -/

/-- The row that `reject` writes for a proposal. -/
def rejectionRow (motionId : String) (proposed : AutonomyEvent) (actor reason : String)
    (eventId createdAt : String) : AutonomyEvent where
  id := eventId
  motionId := motionId
  task := proposed.task
  declarationVersion := proposed.declarationVersion
  scope := proposed.scope
  event := .motionRejected
  fromPosition := proposed.fromPosition
  toPosition := proposed.toPosition
  evidenceRef := proposed.evidenceRef
  evidenceSha256 := proposed.evidenceSha256
  actor := actor
  reason := reason
  createdAt := createdAt

/-- Record the rejection of a pending motion. -/
def rejectFresh (args : MotionArgs) (actor : String) (proposed : AutonomyEvent) : Py Exit := do
  recordEvent (rejectionRow args.motionId proposed actor args.reason)
  let events ← getAutonomyEventsForMotion args.motionId
  return .fellThrough events

/-- The block of `reject`. -/
def rejectBlock (args : MotionArgs) (actor : String) : Py Exit := do
  let events ← getAutonomyEventsForMotion args.motionId
  let motion := pyRepr args.motionId
  let proposed ← requireSome (byEvent events .motionProposed)
    ⟨.paaNotFoundError, s!"no proposal found for motion_id {motion}"⟩
  match byEvent events .motionRejected, byEvent events .motionApproved,
      byEvent events .positionChanged with
  | some rejected, none, none =>
    if sameIdentity rejected proposed then return .returned (← projectMotion events)
    else
      throw ⟨.paaCorruptHistoryError,
        s!"motion {motion} has a rejection that does not match its proposal identity"⟩
  | some _, _, _ => throw ⟨.paaCorruptHistoryError,
      s!"motion {motion} has both a rejection and an approval/change event"⟩
  | none, none, none => rejectFresh args actor proposed
  | none, _, _ => throw ⟨.paaTerminalError,
      s!"motion {motion} is already approved or executed and cannot be rejected"⟩

/-- The block of `reject` and the projection after it. -/
def rejectLocked (args : MotionArgs) (actor : String) : Py Motion := do
  let exit ← beginImmediate (rejectBlock args actor)
  exit.motion

/-- `reject`. -/
def reject (config : RuntimeConfig) (args : MotionArgs) : Py Motion := do
  let actor ← reasonedActor config "reject a motion" args.reason args.actor
  rejectLocked args actor

/-! ## Demote -/

/-- The arguments of `demote`. -/
structure DemoteArgs where
  task : String
  scope : Option String
  reason : String
  actor : Option String := none
  sourceRows : List String := []

/-- One character of a JSON string without `ensure_ascii`. -/
def jsonEscape (c : Char) : List Char :=
  if c = '"' then ['\\', '"']
  else if c = '\\' then ['\\', '\\']
  else if c = '\n' then ['\\', 'n']
  else if c = '\r' then ['\\', 'r']
  else if c = '\t' then ['\\', 't']
  else if c = Char.ofNat 8 then ['\\', 'b']
  else if c = Char.ofNat 12 then ['\\', 'f']
  else if c.toNat < 32 then
    ['\\', 'u', '0', '0', Nat.digitChar (c.toNat / 16), Nat.digitChar (c.toNat % 16)]
  else [c]

/-- A JSON string. -/
def jsonString (s : String) : String :=
  String.ofList ('"' :: s.toList.flatMap jsonEscape ++ ['"'])

/-- `_canonical_demotion_evidence`: compact JSON with sorted keys. -/
def canonicalDemotionEvidence (d : PaaTaskDeclaration) (scope : Option String)
    (actor reason : String) (sourceRows : List String) (generatedAt : String) : Bytes :=
  let members := [("actor", jsonString actor), ("declaration_version", toString d.version),
    ("generated_at", jsonString generatedAt), ("reason", jsonString reason),
    ("scope", (scope.map jsonString).getD "null"),
    ("source_rows", "[" ++ ",".intercalate ((pySorted sourceRows.eraseDups).map jsonString) ++ "]"),
    ("task", jsonString d.task)]
  (String.ofList ['\x7b'] ++ ",".intercalate (members.map fun m => jsonString m.1 ++ ":" ++ m.2) ++
    String.ofList ['\x7d']).toUTF8.data.toList

/-- The reason, the declaration, the scope and the operator, before the lock. -/
def demoteLoad (config : RuntimeConfig) (args : DemoteArgs) :
    Py (PaaTaskDeclaration × String) := do
  require (args.reason ≠ "") ⟨.paaValidationError, "--reason is required to demote"⟩
  let d ← loadDeclaration config args.task
  validateScope d args.scope
  let actor ← resolveActor args.actor config.actorEnvVar
  return (d, actor)

/-- The head of the block: the position, resolved anew, must be the source of the demotion; then
the evidence is generated. -/
def demoteResolve (config : RuntimeConfig) (args : DemoteArgs) (d : PaaTaskDeclaration)
    (actor : String) : Py (AutonomyPosition × Bytes) := do
  let resolved ← resolveCurrentPosition config args.task args.scope
  require (resolved.currentPosition = d.demotion.fromPosition) ⟨.paaTransitionError,
    s!"cannot demote {pyRepr args.task} scope {pyReprOption args.scope}: current position " ++
      s!"{pyRepr resolved.currentPosition.text} is not the declared demotion source " ++
      s!"{pyRepr d.demotion.fromPosition.text}"⟩
  let generatedAt ← newCreatedAt
  return (resolved.currentPosition,
    canonicalDemotionEvidence d args.scope actor args.reason args.sourceRows generatedAt)

/-- A row that `demote` writes. -/
def demotionRow (args : DemoteArgs) (d : PaaTaskDeclaration) (actor motionId : String)
    (fromPosition : AutonomyPosition) (evidenceRef evidenceSha256 : String)
    (kind : AutonomyEventType) (eventId createdAt : String) : AutonomyEvent where
  id := eventId
  motionId := motionId
  task := d.task
  declarationVersion := d.version
  scope := args.scope
  event := kind
  fromPosition := fromPosition
  toPosition := d.demotion.toPosition
  evidenceRef := evidenceRef
  evidenceSha256 := evidenceSha256
  actor := actor
  reason := args.reason
  createdAt := createdAt

/-- The tail of the block: the three rows of the motion. -/
def demoteRecord (args : DemoteArgs) (d : PaaTaskDeclaration) (actor : String)
    (fromPosition : AutonomyPosition) (evidenceRef evidenceSha256 : String) : Py Table := do
  let motionId ← newMotionId
  forEach (fun kind => recordEvent
      (demotionRow args d actor motionId fromPosition evidenceRef evidenceSha256 kind))
    [.motionProposed, .motionApproved, .positionChanged]
  getAutonomyEventsForMotion motionId

/-- The block of `demote`. -/
def demoteBlock [Hashlib] (config : RuntimeConfig) (args : DemoteArgs) (d : PaaTaskDeclaration)
    (actor : String) : Py Table := do
  let (fromPosition, data) ← demoteResolve config args d actor
  let (evidenceRef, evidenceSha256) ← storeEvidence config.evidenceRoot data
  demoteRecord args d actor fromPosition evidenceRef evidenceSha256

/-- `demote`. -/
def demote [Hashlib] (config : RuntimeConfig) (args : DemoteArgs) : Py Motion := do
  let (d, actor) ← demoteLoad config args
  let events ← beginImmediate (demoteBlock config args d actor)
  projectMotion events

end PaaRuntime
