import PaaRuntime.AllOrNothing
import PaaRuntime.PublishSafety

/-!
# Clients on one store

Any number of clients of one event store, one declarations directory and one evidence root, one call
each. A call is cut into the parts that the steps of other clients can come between:

1. `propose` loads, folds provisionally, reads its file, stores it one file-system step at a time,
   finds its operator, and runs its block.
2. `approve` and `reject` find their operator and run their block.
3. `demote` loads, opens its block, stores its evidence one file-system step at a time with the
   write lock held, and writes its rows.
4. `import_events` is its one transaction.

Every part runs against surroundings of its own, so that any part may fail; a process may crash
between any two parts, and the declarations directory may be replaced.
-/

namespace PaaRuntime

open Prog

/-! ## What clients share -/

/-- The committed table, the declarations, the evidence, and the client whose open transaction holds
the write lock. -/
structure Shared where
  table : Table
  directory : Directory
  disk : Disk
  lock : Option ℕ

/-- Where a call stands. -/
inductive Stage (Λ ρ : Type)
  | running (l : Λ)
  | returned (r : ρ)
  | raised (e : PyError)
  | crashed

namespace Shared

variable {α Λ ρ : Type}

/-- What a part of client `i`'s call finds. -/
def session (sh : Shared) (i : ℕ) (io : Io) : Session where
  world :=
    { committed := sh.table
      working := if sh.lock = some i then some sh.table else none
      locked := decide (sh.lock ≠ none ∧ sh.lock ≠ some i)
      directory := sh.directory
      disk := sh.disk }
  io := io

/-- Client `i` lets go of the write lock, if it holds it. -/
def release (sh : Shared) (i : ℕ) : Shared :=
  { sh with lock := if sh.lock = some i then none else sh.lock }

/-- What a part of client `i`'s call leaves: while its transaction is open the client holds the write
lock, unless another client does. -/
def after (sh : Shared) (i : ℕ) (w : World) : Shared where
  table := w.committed
  directory := sh.directory
  disk := w.disk
  lock := if w.working.isSome then sh.lock.or (some i) else (sh.release i).lock

/-- Client `i` runs a part of its call, to go on at `k` or to raise. -/
def run (sh : Shared) (i : ℕ) (io : Io) (x : Py α) (k : α → Stage Λ ρ) : Shared × Stage Λ ρ :=
  match x (sh.session i io) with
  | (.ok a, s) => (sh.after i s.world, k a)
  | (.error e, s) => (sh.after i s.world, .raised e)

/-- Client `i` takes a file-system step of storing its evidence. -/
def store [Hashlib] (sh : Shared) (i : ℕ) (root : String) (outcome : StepOutcome) (call : StoreCall)
    (k : StoreCall → Λ) : Shared × Stage Λ ρ :=
  let next := call.step root outcome sh.disk
  match next.2.pc with
  | .crashed _ => ({ sh with disk := next.1 }.release i, .crashed)
  | _ => ({ sh with disk := next.1 }, .running (k next.2))

end Shared

/-! ## Calls in parts -/

/-- Where a running `propose` stands. -/
inductive ProposeAt
  | called
  | loaded (d : PaaTaskDeclaration) (toPosition : AutonomyPosition)
  | checked (d : PaaTaskDeclaration) (toPosition : AutonomyPosition)
  | storing (d : PaaTaskDeclaration) (toPosition : AutonomyPosition) (call : StoreCall)
  | ready (data : Bytes) (draft : Draft)

/-- Where a running `approve` or `reject` stands. -/
inductive MotionAt
  | called
  | ready (actor : String)

/-- Where a running `demote` stands; its block is open while it stores. -/
inductive DemoteAt
  | called
  | loaded (d : PaaTaskDeclaration) (actor : String)
  | storing (d : PaaTaskDeclaration) (actor : String) (fromPosition : AutonomyPosition)
    (call : StoreCall)

/-- A `propose` that returned: the bytes it read, its draft, its motion. -/
structure Proposal where
  data : Bytes
  draft : Draft
  motion : Motion

/-- A `demote` that returned: its declaration, operator and evidence, and its motion. -/
structure Demotion where
  declaration : PaaTaskDeclaration
  actor : String
  data : Bytes
  motion : Motion

variable [Hashlib]

/-- The next part of a `propose`. -/
def proposeStep (config : RuntimeConfig) (args : ProposeArgs) (i : ℕ) (io : Io)
    (outcome : StepOutcome) (sh : Shared) : ProposeAt → Shared × Stage ProposeAt Proposal
  | .called => sh.run i io (proposeLoad config args) fun r => .running (.loaded r.1 r.2)
  | .loaded d toPosition =>
    sh.run i io (proposeCheck d args.scope toPosition) fun _ => .running (.checked d toPosition)
  | .checked d toPosition =>
    sh.run i io (proposeRead args.evidencePath) fun data =>
      .running (.storing d toPosition ⟨data, .mkdir⟩)
  | .storing d toPosition call =>
    match call.pc with
    | .finished (.ok (ref, sha)) _ =>
      sh.run i io (proposeActor config args.actor) fun r => .running (.ready call.data
        ⟨d, args.scope, toPosition, ref, sha, r.1, args.reason, r.2⟩)
    | .finished (.error e) _ => (sh, .raised e)
    | _ => sh.store i config.evidenceRoot outcome call (.storing d toPosition)
  | .ready data draft => sh.run i io (proposeLocked draft) fun m => .returned ⟨data, draft, m⟩

/-- The next part of an `approve`. -/
def approveStep (config : RuntimeConfig) (args : MotionArgs) (i : ℕ) (io : Io) (sh : Shared) :
    MotionAt → Shared × Stage MotionAt Motion
  | .called => sh.run i io (reasonedActor config "approve a motion" args.reason args.actor)
      fun actor => .running (.ready actor)
  | .ready actor => sh.run i io (approveLocked config args actor) .returned

/-- The next part of a `reject`. -/
def rejectStep (config : RuntimeConfig) (args : MotionArgs) (i : ℕ) (io : Io) (sh : Shared) :
    MotionAt → Shared × Stage MotionAt Motion
  | .called => sh.run i io (reasonedActor config "reject a motion" args.reason args.actor)
      fun actor => .running (.ready actor)
  | .ready actor => sh.run i io (rejectLocked args actor) .returned

/-- The opening of the block of `demote`. -/
def demoteOpen (config : RuntimeConfig) (args : DemoteArgs) (d : PaaTaskDeclaration)
    (actor : String) : Py (AutonomyPosition × Bytes) := do
  begin_ true
  rollbackOnError (demoteResolve config args d actor)

/-- The end of the block of `demote`, and the projection after it. -/
def demoteClose (args : DemoteArgs) (d : PaaTaskDeclaration) (actor : String)
    (fromPosition : AutonomyPosition) (evidenceRef evidenceSha256 : String) : Py Motion := do
  let events ← closing (demoteRecord args d actor fromPosition evidenceRef evidenceSha256)
  projectMotion events

/-- The next part of a `demote`. -/
def demoteStep (config : RuntimeConfig) (args : DemoteArgs) (i : ℕ) (io : Io)
    (outcome : StepOutcome) (sh : Shared) : DemoteAt → Shared × Stage DemoteAt Demotion
  | .called => sh.run i io (demoteLoad config args) fun r => .running (.loaded r.1 r.2)
  | .loaded d actor => sh.run i io (demoteOpen config args d actor) fun r =>
      .running (.storing d actor r.1 ⟨r.2, .mkdir⟩)
  | .storing d actor fromPosition call =>
    match call.pc with
    | .finished (.ok (ref, sha)) _ =>
      sh.run i io (demoteClose args d actor fromPosition ref sha) fun m =>
        .returned ⟨d, actor, call.data, m⟩
    | .finished (.error e) _ => sh.run i io (rollbackOnError (throw e : Py Unit)) fun _ => .raised e
    | _ => sh.store i config.evidenceRoot outcome call (.storing d actor fromPosition)

/-! ## Clients -/

/-- A client: what it called, and where that call stands. -/
inductive Client
  | idle
  | propose (args : ProposeArgs) (stage : Stage ProposeAt Proposal)
  | approve (args : MotionArgs) (stage : Stage MotionAt Motion)
  | reject (args : MotionArgs) (stage : Stage MotionAt Motion)
  | demote (args : DemoteArgs) (stage : Stage DemoteAt Demotion)
  | importEvents (events : List (Except PyError EventMapping)) (stage : Stage Unit Unit)

/-- A crash ends a call that has not returned. -/
def Stage.crash {Λ ρ : Type} : Stage Λ ρ → Stage Λ ρ
  | .returned r => .returned r
  | _ => .crashed

/-- A call of this stage is in progress. -/
def Stage.InProgress {Λ ρ : Type} : Stage Λ ρ → Prop
  | .running _ => True
  | _ => False

namespace Client

/-- A call begins. -/
def begun : Call → Client
  | .propose args => .propose args (.running .called)
  | .approve args => .approve args (.running .called)
  | .reject args => .reject args (.running .called)
  | .demote args => .demote args (.running .called)
  | .importEvents events => .importEvents events (.running ())

/-- An idle client calls. -/
def start (call : Call) (sh : Shared) : Client → Shared × Client
  | .idle => (sh, begun call)
  | c => (sh, c)

/-- The next part of client `i`'s call. -/
def advance (config : RuntimeConfig) (i : ℕ) (io : Io) (outcome : StepOutcome) (sh : Shared) :
    Client → Shared × Client
  | .propose args (.running l) =>
    let r := proposeStep config args i io outcome sh l
    (r.1, .propose args r.2)
  | .approve args (.running l) =>
    let r := approveStep config args i io sh l
    (r.1, .approve args r.2)
  | .reject args (.running l) =>
    let r := rejectStep config args i io sh l
    (r.1, .reject args r.2)
  | .demote args (.running l) =>
    let r := demoteStep config args i io outcome sh l
    (r.1, .demote args r.2)
  | .importEvents events (.running ()) =>
    let r := sh.run i io (PaaRuntime.importEvents events) fun _ => .returned ()
    (r.1, .importEvents events r.2)
  | c => (sh, c)

/-- Client `i`'s process dies. -/
def crash (i : ℕ) (sh : Shared) : Client → Shared × Client
  | .idle => (sh, .idle)
  | .propose args stage => (sh.release i, .propose args stage.crash)
  | .approve args stage => (sh.release i, .approve args stage.crash)
  | .reject args stage => (sh.release i, .reject args stage.crash)
  | .demote args stage => (sh.release i, .demote args stage.crash)
  | .importEvents events stage => (sh.release i, .importEvents events stage.crash)

/-- A call of the client is in progress. -/
def InProgress : Client → Prop
  | .idle => False
  | .propose _ stage => stage.InProgress
  | .approve _ stage => stage.InProgress
  | .reject _ stage => stage.InProgress
  | .demote _ stage => stage.InProgress
  | .importEvents _ stage => stage.InProgress

end Client

/-! ## The system -/

/-- The clients of one store. -/
abbrev System := Threads Shared Client

/-- What can happen: the directory is replaced, an idle client calls, a client's call goes on, a
client's process dies. -/
inductive Action
  | replaceDirectory (directory : Directory)
  | start (i : ℕ) (call : Call)
  | advance (i : ℕ) (io : Io) (outcome : StepOutcome)
  | crash (i : ℕ)

namespace System

/-- An empty store, no evidence, and no calls. -/
def init (directory : Directory) : System := ⟨⟨[], directory, Disk.empty, none⟩, fun _ => .idle⟩

/-- One action. -/
def next (config : RuntimeConfig) (W : System) : Action → System
  | .replaceDirectory directory => { W with shared := { W.shared with directory := directory } }
  | .start i call => W.act i (Client.start call)
  | .advance i io outcome => W.act i (Client.advance config i io outcome)
  | .crash i => W.act i (Client.crash i)

/-- Going from one state of the system to another, whatever happens. -/
abbrev Reach (config : RuntimeConfig) : System → System → Prop :=
  Run (next config) fun _ _ => True

/-- The action is none of an import. -/
def ServiceOnly (_ : System) : Action → Prop
  | .start _ (.importEvents _) => False
  | _ => True

/-- The directory is replaced only while no call is in progress. -/
def QuietReplacement (W : System) : Action → Prop
  | .replaceDirectory _ => ∀ i, ¬ (W.thread i).InProgress
  | _ => True

end System

end PaaRuntime
