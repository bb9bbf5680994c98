import Mathlib.Data.Stream.Defs
import PaaRuntime.Declarations
import PaaRuntime.Evidence
import PaaRuntime.Lib.Prog

/-!
# Calls and their surroundings

A call of the runtime is a program over a `Session`: the `World` it shares with others, as it stands
for this call, and its private `Io`, which decides everything the surroundings choose: whether the
next interaction fails, how a COMMIT ends, what the clock and the random ids read, which files hold
evidence, who the operator is. Every interaction with the surroundings starts with `tick`.
-/

namespace PaaRuntime

/-- The rows of `autonomy_events` in the order they were inserted. -/
abbrev Table := List AutonomyEvent

/-- How a COMMIT ends: durable, or refused with the transaction left open or not. -/
inductive CommitOutcome
  | done
  | refused (stillOpen : Bool)
  deriving DecidableEq, Repr

/-- What the surroundings have in store for one call. -/
structure Io where
  faults : Stream' (Option Fault)
  commits : Stream' CommitOutcome
  clock : Stream' String
  eventIds : Stream' String
  motionIds : Stream' String
  tempNames : Stream' String
  /-- How many bytes an evidence write that fails gets out. -/
  written : ℕ
  files : String → Option Bytes
  environ : String → Option String
  login : Except PyError String
  /-- `getpass.getuser` raises no exception of the package. -/
  login_error : ∀ e, login = .error e → e.cls.IsFault ∨ e.cls = .keyError

theorem login_ok {name : String} (e : PyError) (h : Except.ok name = .error e) :
    e.cls.IsFault ∨ e.cls = .keyError := nomatch h

/-- What a call finds and changes: the committed table, the table inside its connection's open
transaction, whether another connection holds the write lock, the declarations, the evidence. -/
structure World where
  committed : Table
  working : Option Table := none
  locked : Bool := false
  directory : Directory
  disk : Disk

namespace World

/-- The rows that the call's connection sees. -/
def view (w : World) : Table := w.working.getD w.committed

/-- With other rows in the open transaction, or none open. -/
def setWorking (w : World) (rows : Option Table) : World := { w with working := rows }

/-- With the table committed and no transaction open. -/
def commitAs (w : World) (t : Table) : World := { w with committed := t, working := none }

@[simp] theorem setWorking_working (w : World) (rows : Option Table) :
    (w.setWorking rows).working = rows := rfl

@[simp] theorem setWorking_committed (w : World) (rows : Option Table) :
    (w.setWorking rows).committed = w.committed := rfl

@[simp] theorem setWorking_locked (w : World) (rows : Option Table) :
    (w.setWorking rows).locked = w.locked := rfl

@[simp] theorem setWorking_directory (w : World) (rows : Option Table) :
    (w.setWorking rows).directory = w.directory := rfl

@[simp] theorem setWorking_disk (w : World) (rows : Option Table) :
    (w.setWorking rows).disk = w.disk := rfl

@[simp] theorem setWorking_setWorking (w : World) (rows rows' : Option Table) :
    (w.setWorking rows).setWorking rows' = w.setWorking rows' := rfl

@[simp] theorem setWorking_commitAs (w : World) (rows : Option Table) (t : Table) :
    (w.setWorking rows).commitAs t = w.commitAs t := rfl

@[simp] theorem commitAs_committed (w : World) (t : Table) : (w.commitAs t).committed = t := rfl

@[simp] theorem commitAs_working (w : World) (t : Table) : (w.commitAs t).working = none := rfl

@[simp] theorem commitAs_directory (w : World) (t : Table) :
    (w.commitAs t).directory = w.directory := rfl

@[simp] theorem commitAs_disk (w : World) (t : Table) : (w.commitAs t).disk = w.disk := rfl

/-- An open transaction shows its rows. -/
theorem view_of_working {w : World} {rows : Table} (h : w.working = some rows) :
    w.view = rows := by
  unfold view
  rw [h]
  rfl

theorem view_of_closed {w : World} (h : w.working = none) : w.view = w.committed := by
  unfold view
  rw [h]
  rfl

@[simp] theorem setWorking_view (w : World) (rows : Table) :
    (w.setWorking (some rows)).view = rows := rfl

end World

structure Session where
  world : World
  io : Io

/-- A call of the runtime. -/
abbrev Py := Prog PyError Session

open Prog

/-- Raise `e` unless the condition holds. -/
def require (p : Prop) [Decidable p] (e : PyError) : Except PyError Unit :=
  if p then .ok () else .error e

@[simp] theorem require_ok {p : Prop} [Decidable p] {e : PyError} {u : Unit} :
    require p e = .ok u ↔ p := by
  unfold require
  split_ifs with h <;> simp [h]

theorem require_error {p : Prop} [Decidable p] {e e' : PyError} :
    require p e = .error e' ↔ ¬ p ∧ e = e' := by
  unfold require
  split_ifs with h <;> simp [h]

/-- A check that a sequence starts with holds if the sequence returns. -/
theorem require_bind_ok {α : Type} {p : Prop} [Decidable p] {e : PyError} {f : Unit → Py α}
    {s s' : Session} {a : α} (h : (liftM (require p e) >>= f) s = (.ok a, s')) :
    p ∧ f () s = (.ok a, s') := by
  simp only [bind_ok, liftM_ok, require_ok] at h
  obtain ⟨_, s₁, ⟨hp, rfl⟩, h⟩ := h
  exact ⟨hp, h⟩

/-- A check that holds lets the sequence go on. -/
theorem require_bind_of {α : Type} {p : Prop} [Decidable p] (hp : p) (e : PyError)
    (f : Unit → Py α) (s : Session) : (liftM (require p e) >>= f) s = f () s := by
  unfold require
  rw [if_pos hp]
  rfl

/-- One interaction with the surroundings, which may fail. -/
def tick : Py Unit := fun s =>
  let s' := { s with io.faults := s.io.faults.tail }
  match s.io.faults.head with
  | none => (.ok (), s')
  | some f => (.error f.toError, s')

/-- Draw the next element of a stream of the surroundings. -/
def draw {α : Type} (get : Io → Stream' α) (set : Stream' α → Io → Io) : Py α := fun s =>
  (.ok (get s.io).head, { s with io := set (get s.io).tail s.io })

/-- `new_created_at`. -/
def newCreatedAt : Py String := do
  tick
  draw (·.clock) fun c io => { io with clock := c }

/-- `new_event_id`. -/
def newEventId : Py String := do
  tick
  draw (·.eventIds) fun c io => { io with eventIds := c }

/-- `new_motion_id`. -/
def newMotionId : Py String := do
  tick
  draw (·.motionIds) fun c io => { io with motionIds := c }

/-- `get_paa_declaration` on the directory as it stands. -/
def loadDeclaration (config : RuntimeConfig) (task : String) : Py PaaTaskDeclaration := do
  tick
  getPaaDeclaration config (← gets (·.world.directory)) task

/-- `read_evidence_bytes` of a source file. -/
def readEvidenceFile (path : String) : Py Bytes := do
  tick
  match ← gets (·.io.files path) with
  | some data => pure data
  | none => throw ⟨.evidenceError, s!"evidence source is not a regular file: {path}"⟩

/-- `resolve_actor`. -/
def resolveActor (explicit : Option String) (envVar : String) : Py String := do
  tick
  let io ← gets (·.io)
  match explicit.filter (· ≠ "") with
  | some actor => pure actor
  | none =>
    match (io.environ envVar).filter (· ≠ "") with
    | some actor => pure actor
    | none =>
      match io.login with
      | .ok actor => pure actor
      | .error e =>
        if e.cls = .osError ∨ e.cls = .keyError then
          throw ⟨.paaValidationError, "could not determine the acting operator: no explicit " ++
            s!"actor, no {envVar} in the environment, and the OS login name is unavailable " ++
            s!"({e.repr}). Pass an explicit actor or set {envVar}."⟩
        else throw e

/-! ## What these leave alone -/

theorem keeps_world_tick : Keeps Session.world tick := by
  intro s
  unfold tick
  dsimp only
  split <;> rfl

/-- An interaction goes through or fails, and leaves the world alone. -/
theorem tick_cases (s : Session) :
    (∃ s₁, tick s = (.ok (), s₁) ∧ s₁.world = s.world) ∨
      ∃ f s₁, tick s = (.error (Fault.toError f), s₁) ∧ s₁.world = s.world := by
  unfold tick
  rcases s.io.faults.head with _ | f
  · exact .inl ⟨_, rfl, rfl⟩
  · exact .inr ⟨f, _, rfl, rfl⟩

/-- Without a fault in store an interaction goes through. -/
theorem tick_of_quiet {s : Session} (h : s.io.faults.head = none) :
    tick s = (.ok (), { s with io.faults := s.io.faults.tail }) := by
  unfold tick
  dsimp only
  rw [h]

/-- A fault in store strikes. -/
theorem tick_of_fault {s : Session} {f : Fault} (h : s.io.faults.head = some f) :
    tick s = (.error f.toError, { s with io.faults := s.io.faults.tail }) := by
  unfold tick
  dsimp only
  rw [h]

theorem keeps_world_draw {α : Type} (get : Io → Stream' α) (set : Stream' α → Io → Io) :
    Keeps Session.world (draw get set) := fun _ => rfl

theorem keeps_world_newCreatedAt : Keeps Session.world newCreatedAt :=
  keeps_world_tick.bind fun _ => keeps_world_draw _ _

theorem keeps_world_newEventId : Keeps Session.world newEventId :=
  keeps_world_tick.bind fun _ => keeps_world_draw _ _

theorem keeps_world_newMotionId : Keeps Session.world newMotionId :=
  keeps_world_tick.bind fun _ => keeps_world_draw _ _

theorem keeps_world_loadDeclaration (config : RuntimeConfig) (task : String) :
    Keeps Session.world (loadDeclaration config task) :=
  keeps_world_tick.bind fun _ => (Keeps.gets _).bind fun _ => Keeps.lift _

theorem keeps_world_readEvidenceFile (path : String) :
    Keeps Session.world (readEvidenceFile path) := by
  refine keeps_world_tick.bind fun _ => (Keeps.gets _).bind fun data => ?_
  cases data with
  | none => exact Keeps.throw _
  | some data => exact Keeps.pure _

theorem keeps_world_resolveActor (explicit : Option String) (envVar : String) :
    Keeps Session.world (resolveActor explicit envVar) := by
  refine keeps_world_tick.bind fun _ => (Keeps.gets _).bind fun io => ?_
  split
  · exact Keeps.pure _
  · split
    · exact Keeps.pure _
    · split
      · exact Keeps.pure _
      · split_ifs <;> exact Keeps.throw _

end PaaRuntime
