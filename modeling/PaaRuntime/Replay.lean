import PaaRuntime.ServiceSpec

/-!
# Importing an archive

`import_events`: one deferred transaction that appends each mapping of an iterable as it comes. The
iterable may raise instead of giving its next mapping; a mapping may lack a key or hold a value that
cannot be bound.
-/

namespace PaaRuntime

open Prog

/-- `mapping[key]`. -/
def item {α : Type} (key : String) : Option α → Except PyError α
  | some a => .ok a
  | none => .error ⟨.keyError, pyRepr key⟩

/-- Bind a parameter. -/
def bound {α : Type} : Bound α → Except PyError α
  | .value a => .ok a
  | .unbindable e => .error e

/-- The values a mapping hands to the insert: every key is looked up before any value is bound. -/
def EventMapping.columns (m : EventMapping) : Except PyError Columns := do
  let id ← item "id" m.id
  let motionId ← item "motion_id" m.motionId
  let task ← item "task" m.task
  let declarationVersion ← item "declaration_version" m.declarationVersion
  let scope ← item "scope" m.scope
  let event ← item "event" m.event
  let fromPosition ← item "from_position" m.fromPosition
  let toPosition ← item "to_position" m.toPosition
  let evidenceRef ← item "evidence_ref" m.evidenceRef
  let evidenceSha256 ← item "evidence_sha256" m.evidenceSha256
  let actor ← item "actor" m.actor
  let reason ← item "reason" m.reason
  let createdAt ← item "created_at" m.createdAt
  let eventSchema ← item "event_schema" m.eventSchema
  let id ← bound id
  let eventSchema ← bound eventSchema
  let motionId ← bound motionId
  let task ← bound task
  let declarationVersion ← bound declarationVersion
  let scope ← bound scope
  let event ← bound event
  let fromPosition ← bound fromPosition
  let toPosition ← bound toPosition
  let evidenceRef ← bound evidenceRef
  let evidenceSha256 ← bound evidenceSha256
  let actor ← bound actor
  let reason ← bound reason
  let createdAt ← bound createdAt
  return ⟨eventSchema, id, motionId, task, declarationVersion, scope, event, fromPosition,
    toPosition, evidenceRef, evidenceSha256, actor, reason, createdAt⟩

/-- What the iterable gives next, inserted. -/
def importEvent (next : Except PyError EventMapping) : Py Unit := do
  let m ← next
  let c ← m.columns
  insertAutonomyEvent c

/-- `import_events`. -/
def importEvents (events : List (Except PyError EventMapping)) : Py Unit :=
  transaction (forEach importEvent events)

/-! ## What an import writes -/

theorem item_ok {α : Type} {key : String} {o : Option α} {a : α} :
    item key o = .ok a ↔ o = some a := by cases o <;> simp [item]

theorem bound_ok {α : Type} {b : Bound α} {a : α} : bound b = .ok a ↔ b = .value a := by
  cases b <;> simp [bound]

/-- A row is imported from exactly the mapping it exports to. -/
theorem columns_ok {m : EventMapping} {e : AutonomyEvent} :
    m.columns = .ok e.columns ↔ m = e.toJsonDict := by
  obtain ⟨schema, id, motion, task, version, scope, event, fromP, toP, ref, sha, actor, reason,
    created⟩ := m
  simp only [EventMapping.columns, AutonomyEvent.columns, AutonomyEvent.toJsonDict, except_bind_ok,
    item_ok, bound_ok, except_pure_ok, Columns.mk.injEq, EventMapping.mk.injEq]
  grind

variable {s s' : Session} {u : Unit}

theorem importEvent_ok {next : Except PyError EventMapping}
    (h : importEvent next s = (.ok u, s')) :
    ∃ rows e, next = .ok e.toJsonDict ∧ s.world.working = some rows ∧ s.world.locked = false ∧
      Fits rows e ∧ s'.world = s.world.setWorking (some (rows ++ [e])) := by
  obtain ⟨m, s₁, h₁, h₂⟩ := bind_ok.1 h
  obtain ⟨rfl, rfl⟩ := liftM_ok.1 h₁
  obtain ⟨c, s₂, h₃, h₄⟩ := bind_ok.1 h₂
  obtain ⟨hc, rfl⟩ := liftM_ok.1 h₃
  obtain ⟨rows, e, hrows, hlock, rfl, hfits, hw⟩ := insertAutonomyEvent_ok h₄
  obtain rfl := columns_ok.1 hc
  exact ⟨rows, e, rfl, hrows, hlock, hfits, hw⟩

theorem forEach_importEvent_ok :
    ∀ {events : List (Except PyError EventMapping)} {s s' : Session} {rows : Table},
      s.world.working = some rows → forEach importEvent events s = (.ok u, s') →
      ∃ written : List AutonomyEvent, events = written.map (fun e => .ok e.toJsonDict) ∧
        (written ≠ [] → s.world.locked = false) ∧ FitsAll rows written ∧
        s'.world = s.world.setWorking (some (rows ++ written))
  | [], s, s', rows, hrows, h => by
    obtain ⟨-, rfl⟩ := pure_ok.1 h
    refine ⟨[], rfl, fun hne => absurd rfl hne, trivial, ?_⟩
    rw [List.append_nil, ← hrows]
    rfl
  | next :: events, s, s', rows, hrows, h => by
    obtain ⟨_, s₁, h₁, h₂⟩ := bind_ok.1 h
    obtain ⟨rows', e, rfl, hrows', hlock, hfits, hw₁⟩ := importEvent_ok h₁
    obtain rfl : rows = rows' := Option.some.inj (hrows.symm.trans hrows')
    obtain ⟨written, rfl, -, hall, hw₂⟩ := forEach_importEvent_ok (by rw [hw₁]; rfl) h₂
    refine ⟨e :: written, rfl, fun _ => hlock, ⟨hfits, hall⟩, ?_⟩
    rw [hw₂, hw₁, List.append_assoc, List.singleton_append, World.setWorking_setWorking]

/-- An import that returns has appended the whole archive, unchanged and in its order. -/
theorem importEvents_ok {events : List (Except PyError EventMapping)}
    (h : importEvents events s = (.ok u, s')) :
    s.world.working = none ∧ ∃ written : List AutonomyEvent,
      events = written.map (fun e => .ok e.toJsonDict) ∧
      (written ≠ [] → s.world.locked = false) ∧ FitsAll s.world.committed written ∧
      s'.world = s.world.commitAs (s.world.committed ++ written) := by
  obtain ⟨hnone, s₀, s₁, hw₀, hbody, hw₁⟩ := transaction_ok h
  have hworking : s₀.world.working = some s.world.committed := by rw [hw₀]; rfl
  obtain ⟨written, hevents, hlock, hfits, hw⟩ := forEach_importEvent_ok hworking hbody
  rw [hw₀] at hlock hw
  refine ⟨hnone, written, hevents, hlock, hfits, ?_⟩
  rw [hw₁, hw]
  rfl

theorem keeps_outside_importEvent (next : Except PyError EventMapping) :
    Keeps Session.outside (importEvent next) :=
  (Keeps.lift _).bind fun _ => (Keeps.lift _).bind fun _ => keeps_outside_insertAutonomyEvent _

end PaaRuntime
