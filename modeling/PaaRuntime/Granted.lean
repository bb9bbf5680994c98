import PaaRuntime.Lib.Yields
import PaaRuntime.SystemSpec

/-!
# What rows inherit

A row of the service draws its id and its timestamp from the surroundings, and takes its triple from a
declaration, its evidence from the store, its operator and its reason from a call. What is granted of
the ids, the clock readings and the declarations that a run meets (`Grants`) holds of every row that
the service commits in it, beside what the service checks itself (`System.rows_granted`).
-/

namespace PaaRuntime

open Prog

/-- What is granted of the surroundings: of event ids, motion ids and login names, of clock readings,
and of the triples that declarations permit. -/
structure Grants where
  name : String → Prop
  clock : String → Prop
  triple : Triple → Prop

namespace Grants

/-- The surroundings of a call grant it. -/
structure OfIo (G : Grants) (io : Io) : Prop where
  clock : ∀ n, G.clock (io.clock.get n)
  eventIds : ∀ n, G.name (io.eventIds.get n)
  motionIds : ∀ n, G.name (io.motionIds.get n)
  login : ∀ name, io.login = .ok name → G.name name

/-- The triples that a declaration permits. -/
def OfDeclaration (G : Grants) (d : PaaTaskDeclaration) : Prop :=
  ∀ scope, d.Permits scope → G.triple (d.triple scope)

/-- An operator was named by the caller or the environment, or is a login name. -/
def Actor (G : Grants) (actor : String) : Prop := actor ≠ "" ∨ G.name actor

/-- What a row inherits. -/
structure OfRow (G : Grants) (e : AutonomyEvent) : Prop where
  eventSchema : e.eventSchema = currentEventSchema
  id : G.name e.id
  motionId : G.name e.motionId
  triple : G.triple e.triple
  evidence : ∃ d : Digest, e.evidenceRef = evidenceRefFor d.hex ∧ e.evidenceSha256 = d.hex
  actor : G.Actor e.actor
  reason : e.reason ≠ ""
  createdAt : G.clock e.createdAt

/-- The surroundings grant it, and the rows have inherited it. -/
structure OfSession (G : Grants) (s : Session) : Prop where
  io : G.OfIo s.io
  committed : ∀ e ∈ s.world.committed, G.OfRow e
  working : ∀ rows, s.world.working = some rows → ∀ e ∈ rows, G.OfRow e

variable {G : Grants} {s : Session} {α : Type}

theorem OfSession.view (h : G.OfSession s) : ∀ e ∈ s.world.view, G.OfRow e := by
  unfold World.view
  cases hw : s.world.working with
  | none => exact h.committed
  | some rows => exact h.working rows hw

/-- Other rows may take the place of those in the open transaction. -/
theorem OfSession.setWorking (h : G.OfSession s) {rows : Option Table}
    (hrows : ∀ t, rows = some t → ∀ e ∈ t, G.OfRow e) :
    G.OfSession { s with world := s.world.setWorking rows } := ⟨h.io, h.committed, hrows⟩

/-! ## Programs -/

/-- The program keeps what is granted, and returns what satisfies `Q`. -/
abbrev Yields (G : Grants) (Q : α → Prop) (x : Py α) : Prop := Prog.Yields G.OfSession Q x

/-- The program keeps what is granted. -/
abbrev Kept (G : Grants) (x : Py α) : Prop := G.Yields (fun _ => True) x

theorem kept_tick : G.Kept tick := by
  intro s h
  have hsession : G.OfSession { s with io := { s.io with faults := s.io.faults.tail } } :=
    ⟨⟨h.io.clock, h.io.eventIds, h.io.motionIds, h.io.login⟩, h.committed, h.working⟩
  unfold tick
  dsimp only
  split
  · exact ⟨hsession, fun _ _ => trivial⟩
  · exact ⟨hsession, fun _ _ => trivial⟩

theorem yields_newCreatedAt : G.Yields G.clock newCreatedAt := by
  refine kept_tick.bind fun _ _ s h => ⟨⟨⟨fun n => ?_, h.io.eventIds, h.io.motionIds, h.io.login⟩,
    h.committed, h.working⟩, fun a ha => ?_⟩
  · exact h.io.clock (n + 1)
  · cases ha
    exact h.io.clock 0

theorem yields_newEventId : G.Yields G.name newEventId := by
  refine kept_tick.bind fun _ _ s h => ⟨⟨⟨h.io.clock, fun n => ?_, h.io.motionIds, h.io.login⟩,
    h.committed, h.working⟩, fun a ha => ?_⟩
  · exact h.io.eventIds (n + 1)
  · cases ha
    exact h.io.eventIds 0

theorem yields_newMotionId : G.Yields G.name newMotionId := by
  refine kept_tick.bind fun _ _ s h => ⟨⟨⟨h.io.clock, h.io.eventIds, fun n => ?_, h.io.login⟩,
    h.committed, h.working⟩, fun a ha => ?_⟩
  · exact h.io.motionIds (n + 1)
  · cases ha
    exact h.io.motionIds 0

theorem yields_query {f : Table → α} {Q : α → Prop}
    (hf : ∀ t : Table, (∀ e ∈ t, G.OfRow e) → Q (f t)) : G.Yields Q (query f) :=
  kept_tick.bind fun _ _ => .gets fun s h => hf s.world.view h.view

theorem kept_query (f : Table → α) : G.Kept (query f) := yields_query fun _ _ => trivial

theorem yields_require {p : Prop} [Decidable p] {e : PyError} :
    G.Yields (fun _ => p) (liftM (require p e)) := .lift fun _ h => require_ok.1 h

theorem kept_lift (r : Except PyError α) : G.Kept (liftM r) := .lift fun _ _ => trivial

theorem kept_loadDeclaration (config : RuntimeConfig) (task : String) :
    G.Kept (loadDeclaration config task) :=
  kept_tick.bind fun _ _ => .gets_bind fun _ => kept_lift _

theorem yields_resolveActor (explicit : Option String) (envVar : String) :
    G.Yields G.Actor (resolveActor explicit envVar) := by
  have hnamed : ∀ {o : Option String} {actor : String}, o.filter (· ≠ "") = some actor →
      G.Actor actor := by
    intro o actor h
    rw [Option.filter_eq_some_iff] at h
    exact .inl (of_decide_eq_true h.2)
  refine kept_tick.bind fun _ _ => Prog.Yields.bind (Q := G.OfIo) (.gets fun _ h => h.io)
    fun io hio => ?_
  split
  · exact .pure (hnamed ‹_›)
  · split
    · exact .pure (hnamed ‹_›)
    · split
      · exact .pure (.inr (hio.login _ ‹_›))
      · split_ifs <;> exact .throw _

/-! ### The store -/

theorem kept_begin (immediate : Bool) : G.Kept (begin_ immediate) := by
  refine kept_tick.bind fun _ _ => .gets_bind fun _ => ?_
  refine (kept_lift _).bind fun _ _ => (kept_lift _).bind fun _ _ => ?_
  refine .modify (fun s h => h.setWorking ?_) trivial
  rintro t ⟨⟩
  exact h.committed

theorem kept_rollback : G.Kept rollback :=
  kept_tick.bind fun _ _ => .modify (fun _ h => h.setWorking fun _ ht => nomatch ht) trivial

theorem kept_commit : G.Kept commit := by
  have hdraw : G.Kept (draw (·.commits) fun c io => { io with commits := c }) := fun s h =>
    ⟨⟨⟨h.io.clock, h.io.eventIds, h.io.motionIds, h.io.login⟩, h.committed, h.working⟩,
      fun _ _ => trivial⟩
  refine kept_tick.bind fun _ _ => hdraw.bind fun outcome _ => ?_
  split
  · exact .modify (fun s h => ⟨h.io, h.view, fun _ hw => nomatch hw⟩) trivial
  · exact .throw _
  · refine Prog.Yields.bind (Q := fun _ => True) (.modify (fun s h => ?_) trivial) fun _ _ => .throw _
    exact h.setWorking fun _ ht => nomatch ht

theorem yields_rollbackOnError {body : Py α} {Q : α → Prop} (h : G.Yields Q body) :
    G.Yields Q (rollbackOnError body) := h.tryCatch fun _ => kept_rollback.bind fun _ _ => .throw _

theorem yields_closing {body : Py α} {Q : α → Prop} (h : G.Yields Q body) :
    G.Yields Q (closing body) :=
  (yields_rollbackOnError h).bind fun _ ha => kept_commit.bind fun _ _ => .pure ha

theorem yields_beginImmediate {body : Py α} {Q : α → Prop} (h : G.Yields Q body) :
    G.Yields Q (beginImmediate body) := (kept_begin true).bind fun _ _ => yields_closing h

/-- A row that inherits what is granted may be inserted. -/
theorem kept_insert {e : AutonomyEvent} (he : G.OfRow e) :
    G.Kept (insertAutonomyEvent e.columns) := by
  refine Prog.Yields.bind (Q := fun working : Option Table => ∀ t, working = some t → ∀ e ∈ t,
    G.OfRow e) (.gets fun _ h => h.working) fun working hworking => ?_
  split
  · exact .throw _
  · next rows =>
    refine (kept_lift _).bind fun _ _ => kept_tick.bind fun _ _ => .gets_bind fun _ => ?_
    refine (kept_lift _).bind fun _ _ => ?_
    rcases hi : autonomyEvents.insertRow rows e.columns with err | rows'
    · exact .throw _
    · obtain ⟨r, hr, -, rfl⟩ := GuardedTable.insertRow_ok.1 hi
      obtain rfl : e = r := columns_injective (asRow_ok.1 hr)
      refine .modify (fun s h => h.setWorking ?_) trivial
      rintro t ⟨⟩ r hr
      rcases List.mem_append.1 hr with hr | hr
      · exact hworking rows rfl r hr
      · exact List.mem_singleton.1 hr ▸ he

theorem kept_recordEvent {row : String → String → AutonomyEvent}
    (hrow : ∀ id createdAt, G.name id → G.clock createdAt → G.OfRow (row id createdAt)) :
    G.Kept (recordEvent row) :=
  yields_newEventId.bind fun id hid => yields_newCreatedAt.bind fun createdAt hat =>
    kept_insert (hrow id createdAt hid hat)

theorem kept_recordEvents {row : AutonomyEventType → String → String → AutonomyEvent}
    (hrow : ∀ kind id createdAt, G.name id → G.clock createdAt → G.OfRow (row kind id createdAt))
    (kinds : List AutonomyEventType) : G.Kept (forEach (fun k => recordEvent (row k)) kinds) :=
  .forEach fun kind _ => kept_recordEvent (hrow kind)

/-! ### The parts of the calls -/

theorem kept_foldCurrentPosition (d : PaaTaskDeclaration) (scope : Option String) :
    G.Kept (foldCurrentPosition d scope) :=
  Prog.Yields.bind (Q := fun _ => True)
    ((kept_lift _).bind fun _ _ => kept_query _) fun _ _ => .pure trivial

theorem kept_resolveCurrentPosition (config : RuntimeConfig) (task : String)
    (scope : Option String) : G.Kept (resolveCurrentPosition config task scope) :=
  (kept_loadDeclaration config task).bind fun d _ => (kept_lift _).bind fun _ _ =>
    (kept_foldCurrentPosition d scope).bind fun _ _ => .pure trivial

theorem kept_proposeLoad (config : RuntimeConfig) (args : ProposeArgs) :
    G.Kept (proposeLoad config args) :=
  (kept_loadDeclaration config args.task).bind fun _ _ => (kept_lift _).bind fun _ _ =>
    (kept_lift _).bind fun _ _ => .pure trivial

theorem kept_proposeCheck (d : PaaTaskDeclaration) (scope : Option String)
    (toPosition : AutonomyPosition) : G.Kept (proposeCheck d scope toPosition) :=
  (kept_foldCurrentPosition d scope).bind fun _ _ => kept_lift _

theorem kept_proposeRead (path : String) : G.Kept (proposeRead path) := by
  have hread : G.Kept (readEvidenceFile path) := by
    refine kept_tick.bind fun _ _ => .gets_bind fun data => ?_
    split
    · exact .pure trivial
    · exact .throw _
  exact hread.bind fun _ _ => (kept_lift _).bind fun _ _ => .pure trivial

theorem yields_proposeActor (config : RuntimeConfig) (actor : Option String) :
    G.Yields (fun r => G.name r.2 ∧ G.Actor r.1) (proposeActor config actor) :=
  (yields_resolveActor actor config.actorEnvVar).bind fun _ hactor =>
    yields_newMotionId.bind fun _ hm => .pure ⟨hm, hactor⟩

theorem kept_proposeLocked {p : Draft} (hm : G.name p.motionId) (hactor : G.Actor p.actor)
    (htriple : G.triple (p.declaration.triple p.scope))
    (hevidence : ∃ d : Digest, p.evidenceRef = evidenceRefFor d.hex ∧ p.evidenceSha256 = d.hex) :
    G.Kept (proposeLocked p) := by
  have hblock : G.Kept (proposeBlock p) := by
    refine (kept_foldCurrentPosition _ _).bind fun r _ => (kept_lift _).bind fun _ _ => ?_
    refine (kept_recordEvent fun id createdAt hid hat => ?_).bind fun _ _ => kept_query _
    refine ⟨rfl, hid, hm, htriple, hevidence, hactor, ?_, hat⟩
    show (p.reason.filter (· ≠ "")).getD _ ≠ ""
    cases hr : p.reason.filter (· ≠ "") with
    | none =>
      rw [Option.getD_none]
      intro hempty
      exact absurd (String.append_eq_empty_iff.1 hempty).2 (by cases p.toPosition <;> decide)
    | some reason => exact of_decide_eq_true (Option.filter_eq_some_iff.1 hr).2
  exact (yields_beginImmediate hblock).bind fun _ _ => kept_lift _

theorem yields_reasonedActor (config : RuntimeConfig) (purpose reason : String)
    (actor : Option String) :
    G.Yields (fun a => G.Actor a ∧ reason ≠ "") (reasonedActor config purpose reason actor) :=
  yields_require.bind fun _ hreason =>
    (yields_resolveActor actor config.actorEnvVar).mono fun _ hactor => ⟨hactor, hreason⟩

/-- The rows of a motion that is looked up have inherited what is granted. -/
theorem yields_eventsForMotion (m : String) :
    G.Yields (fun events => ∀ e ∈ events, G.OfRow e ∧ e.motionId = m)
      (getAutonomyEventsForMotion m) := by
  refine yields_query fun t ht e he => ?_
  obtain ⟨het, hm⟩ := mem_eventsForMotion.1 he
  exact ⟨ht e het, hm⟩

theorem yields_proposed {events : Table} {m : String} {err : PyError}
    (h : ∀ e ∈ events, G.OfRow e ∧ e.motionId = m) :
    G.Yields (fun p => G.OfRow p ∧ p.motionId = m)
      (liftM (requireSome (byEvent events .motionProposed) err)) :=
  .lift fun p hp => h p (byEvent_eq_some (requireSome_ok.1 hp)).1

/-- A row that resolves a proposal inherits from it. -/
theorem OfRow.resolve {p e : AutonomyEvent} (h : G.OfRow p) (hm : e.motionId = p.motionId)
    (hidentity : e.identity = p.identity) (hschema : e.eventSchema = currentEventSchema)
    (hid : G.name e.id) (hactor : G.Actor e.actor) (hreason : e.reason ≠ "")
    (hat : G.clock e.createdAt) : G.OfRow e where
  eventSchema := hschema
  id := hid
  motionId := hm ▸ h.motionId
  triple := AutonomyEvent.triple_eq_of_identity_eq hidentity ▸ h.triple
  evidence := by
    obtain ⟨d, href, hsha⟩ := h.evidence
    exact ⟨d, (congrArg Identity.evidenceRef hidentity).trans href,
      (congrArg Identity.evidenceSha256 hidentity).trans hsha⟩
  actor := hactor
  reason := hreason
  createdAt := hat

theorem kept_exit {body : Py Exit} (h : G.Kept body) :
    G.Kept (do let exit ← beginImmediate body; exit.motion) :=
  (yields_beginImmediate h).bind fun _ _ => kept_lift _

theorem kept_rejectLocked {args : MotionArgs} {actor : String} (hactor : G.Actor actor)
    (hreason : args.reason ≠ "") : G.Kept (rejectLocked args actor) := by
  refine kept_exit ((yields_eventsForMotion _).bind fun events hevents => ?_)
  refine (yields_proposed hevents).bind fun p hp => ?_
  have hreturn : G.Kept (do return Exit.returned (← projectMotion events)) :=
    (kept_lift _).bind fun _ _ => .pure trivial
  have hfresh : G.Kept (rejectFresh args actor p) := by
    refine (kept_recordEvent fun id createdAt hid hat => ?_).bind fun _ _ =>
      (kept_query _).bind fun _ _ => .pure trivial
    exact hp.1.resolve hp.2.symm rfl rfl hid hactor hreason hat
  split
  · split_ifs
    · exact hreturn
    · exact .throw _
  · exact .throw _
  · exact hfresh
  · exact .throw _

theorem kept_demoteRecord {args : DemoteArgs} {d : PaaTaskDeclaration} {actor ref sha : String}
    (fromPosition : AutonomyPosition) (hactor : G.Actor actor) (hreason : args.reason ≠ "")
    (htriple : G.triple (d.triple args.scope))
    (hevidence : ∃ d : Digest, ref = evidenceRefFor d.hex ∧ sha = d.hex) :
    G.Kept (demoteRecord args d actor fromPosition ref sha) := by
  refine yields_newMotionId.bind fun m hm => ?_
  refine (kept_recordEvents (fun kind id createdAt hid hat => ?_) _).bind fun _ _ => kept_query _
  exact ⟨rfl, hid, hm, htriple, hevidence, hactor, hreason, hat⟩

theorem yields_demoteLoad (config : RuntimeConfig) (args : DemoteArgs) :
    G.Yields (fun r => G.Actor r.2 ∧ args.reason ≠ "") (demoteLoad config args) :=
  yields_require.bind fun _ hreason => (kept_loadDeclaration config args.task).bind fun _ _ =>
    (kept_lift _).bind fun _ _ => (yields_resolveActor args.actor config.actorEnvVar).bind
      fun _ hactor => .pure ⟨hactor, hreason⟩

theorem kept_demoteOpen (config : RuntimeConfig) (args : DemoteArgs) (d : PaaTaskDeclaration)
    (actor : String) : G.Kept (demoteOpen config args d actor) :=
  (kept_begin true).bind fun _ _ => yields_rollbackOnError
    ((kept_resolveCurrentPosition _ _ _).bind fun _ _ => (kept_lift _).bind fun _ _ =>
      yields_newCreatedAt.bind fun _ _ => .pure trivial)

variable [Hashlib]

theorem kept_approveChecks (config : RuntimeConfig) (p : AutonomyEvent) :
    G.Kept (approveChecks config p) := by
  refine kept_tick.bind fun _ _ => .gets_bind fun _ => (kept_lift _).bind fun _ _ => ?_
  refine (kept_loadDeclaration config p.task).bind fun _ _ => (kept_lift _).bind fun _ _ => ?_
  refine (kept_lift _).bind fun _ _ => ?_
  refine Prog.Yields.bind (Q := fun _ => True) ((kept_lift _).bind fun _ _ => kept_query _) ?_
  intro _ _
  refine Prog.Yields.bind (Q := fun _ => True) ((kept_lift _).bind fun _ _ => kept_query _) ?_
  exact fun _ _ => kept_lift _

theorem kept_approveLocked (config : RuntimeConfig) {args : MotionArgs} {actor : String}
    (hactor : G.Actor actor) (hreason : args.reason ≠ "") :
    G.Kept (approveLocked config args actor) := by
  refine kept_exit ((yields_eventsForMotion _).bind fun events hevents => ?_)
  refine (yields_proposed hevents).bind fun p hp => ?_
  have hreturn : G.Kept (do return Exit.returned (← projectMotion events)) :=
    (kept_lift _).bind fun _ _ => .pure trivial
  have hfresh : G.Kept (approveFresh config args actor p) := by
    refine (kept_approveChecks config p).bind fun _ _ => ?_
    refine (kept_recordEvents (fun kind id createdAt hid hat => ?_) _).bind fun _ _ =>
      (kept_query _).bind fun _ _ => .pure trivial
    exact hp.1.resolve hp.2.symm rfl rfl hid hactor hreason hat
  split
  · exact .throw _
  · exact .throw _
  · split_ifs
    · exact hreturn
    · exact .throw _
  · exact .throw _
  · exact .throw _
  · exact hfresh

/-! ## Clients -/

/-- The client calls no import, its operator is known and its reason given, and the motion it is about
to propose has an id. -/
def OfClient (G : Grants) : Client → Prop
  | .propose _ (.running (.ready _ p)) => G.name p.motionId ∧ G.Actor p.actor
  | .approve args (.running (.ready actor)) => G.Actor actor ∧ args.reason ≠ ""
  | .reject args (.running (.ready actor)) => G.Actor actor ∧ args.reason ≠ ""
  | .demote args (.running (.loaded _ actor)) => G.Actor actor ∧ args.reason ≠ ""
  | .demote args (.running (.storing _ actor _ _)) => G.Actor actor ∧ args.reason ≠ ""
  | .importEvents _ _ => False
  | _ => True

/-- The rows and the client have inherited what is granted. -/
structure Inherited (G : Grants) (sh : Shared) (c : Client) : Prop where
  rows : ∀ e ∈ sh.table, G.OfRow e
  client : G.OfClient c

variable {config : RuntimeConfig} {i : ℕ} {io : Io} {outcome : StepOutcome} {sh : Shared}
  {Λ ρ : Type}

omit [Hashlib] in
theorem ofSession_session (hio : G.OfIo io) (hrows : ∀ e ∈ sh.table, G.OfRow e) :
    G.OfSession (sh.session i io) := by
  refine ⟨hio, hrows, fun rows hw => ?_⟩
  unfold Shared.session at hw
  dsimp only at hw
  split_ifs at hw
  cases hw
  exact hrows

omit [Hashlib] in
/-- A part of a call that keeps what is granted. -/
theorem inherited_run {w : Stage Λ ρ → Client} {x : Py α} {k : α → Stage Λ ρ} {Q : α → Prop}
    (hio : G.OfIo io) (hrows : ∀ e ∈ sh.table, G.OfRow e) (hx : G.Yields Q x)
    (hraised : ∀ e, G.OfClient (w (.raised e))) (hk : ∀ a, Q a → G.OfClient (w (k a))) :
    G.Inherited (sh.run i io x k).1 (w (sh.run i io x k).2) := by
  have hs : G.OfSession (sh.session i io) := ofSession_session hio hrows
  rcases sh.run_cases i io x k with ⟨a, s, hr, hrun⟩ | ⟨e, s, hr, hrun⟩ <;> rw [hrun]
  · exact ⟨(hx.ok hs hr).1.committed, hk a (hx.ok hs hr).2⟩
  · exact ⟨(hx.error hs hr).committed, hraised e⟩

/-- A file-system step leaves the rows alone. -/
theorem inherited_store {w : Stage Λ ρ → Client} {root : String} {call : StoreCall}
    {k : StoreCall → Λ} (hrows : ∀ e ∈ sh.table, G.OfRow e) (hcrashed : G.OfClient (w .crashed))
    (hk : ∀ call, G.OfClient (w (.running (k call)))) :
    G.Inherited (sh.store i root outcome call k : Shared × Stage Λ ρ).1
      (w (sh.store i root outcome call k).2) := by
  unfold Shared.store
  dsimp only
  split
  · exact ⟨hrows, hcrashed⟩
  · exact ⟨hrows, hk _⟩

theorem propose_inherits {args : ProposeArgs} {l : ProposeAt} (hio : G.OfIo io)
    (hok : (Client.propose args (.running l)).Ok G.OfDeclaration i sh)
    (h : G.Inherited sh (.propose args (.running l))) :
    G.Inherited (proposeStep config args i io outcome sh l).1
      (.propose args (proposeStep config args i io outcome sh l).2) := by
  have hrows := h.rows
  cases l with
  | called =>
    exact inherited_run hio hrows (kept_proposeLoad config args) (fun _ => trivial)
      fun _ _ => trivial
  | loaded d toPosition =>
    exact inherited_run hio hrows (kept_proposeCheck d args.scope toPosition) (fun _ => trivial)
      fun _ _ => trivial
  | checked d toPosition =>
    exact inherited_run hio hrows (kept_proposeRead args.evidencePath) (fun _ => trivial)
      fun _ _ => trivial
  | storing d toPosition call =>
    simp only [proposeStep]
    split
    · exact inherited_run hio hrows (yields_proposeActor config args.actor) (fun _ => trivial)
        fun _ hr => hr
    · exact ⟨hrows, trivial⟩
    · exact inherited_store hrows trivial fun _ => trivial
  | ready data p =>
    obtain ⟨hloaded, hscope, hstored⟩ : p.Ready _ args sh.disk data := hok.knows
    have htriple : G.triple (p.declaration.triple p.scope) :=
      hloaded.known p.scope (hscope ▸ hloaded.permits)
    exact inherited_run hio hrows
      (kept_proposeLocked h.client.1 h.client.2 htriple ⟨_, hstored.ref, hstored.sha⟩)
      (fun _ => trivial) fun _ _ => trivial

theorem approve_inherits {args : MotionArgs} {l : MotionAt} (hio : G.OfIo io)
    (h : G.Inherited sh (.approve args (.running l))) :
    G.Inherited (approveStep config args i io sh l).1
      (.approve args (approveStep config args i io sh l).2) := by
  cases l with
  | called =>
    exact inherited_run hio h.rows (yields_reasonedActor config _ args.reason args.actor)
      (fun _ => trivial) fun _ hr => hr
  | ready actor =>
    exact inherited_run hio h.rows (kept_approveLocked config h.client.1 h.client.2)
      (fun _ => trivial) fun _ _ => trivial

omit [Hashlib] in
theorem reject_inherits {args : MotionArgs} {l : MotionAt} (hio : G.OfIo io)
    (h : G.Inherited sh (.reject args (.running l))) :
    G.Inherited (rejectStep config args i io sh l).1
      (.reject args (rejectStep config args i io sh l).2) := by
  cases l with
  | called =>
    exact inherited_run hio h.rows (yields_reasonedActor config _ args.reason args.actor)
      (fun _ => trivial) fun _ hr => hr
  | ready actor =>
    exact inherited_run hio h.rows (kept_rejectLocked h.client.1 h.client.2) (fun _ => trivial)
      fun _ _ => trivial

theorem demote_inherits {args : DemoteArgs} {l : DemoteAt} (hio : G.OfIo io)
    (hok : (Client.demote args (.running l)).Ok G.OfDeclaration i sh)
    (h : G.Inherited sh (.demote args (.running l))) :
    G.Inherited (demoteStep config args i io outcome sh l).1
      (.demote args (demoteStep config args i io outcome sh l).2) := by
  cases l with
  | called =>
    exact inherited_run hio h.rows (yields_demoteLoad config args) (fun _ => trivial) fun _ hr => hr
  | loaded d actor =>
    exact inherited_run hio h.rows (kept_demoteOpen config args d actor) (fun _ => trivial)
      fun _ _ => h.client
  | storing d actor fromPosition call =>
    simp only [demoteStep]
    split
    · next ref sha left hpc =>
      obtain ⟨-, href⟩ := (hok.call call rfl).finished _ _ hpc
      obtain ⟨rfl, rfl⟩ := Prod.mk.inj href
      obtain ⟨hloaded, -⟩ := hok.knows
      have hrecord : G.Kept (demoteClose args d actor fromPosition
          (evidenceRefFor call.digest.hex) call.digest.hex) :=
        (yields_closing (kept_demoteRecord fromPosition h.client.1 h.client.2
          (hloaded.known _ hloaded.permits) ⟨call.digest, rfl, rfl⟩)).bind fun _ _ => kept_lift _
      exact inherited_run hio h.rows hrecord (fun _ => trivial) fun _ _ => trivial
    · next e left hpc =>
      have hthrow : G.Kept (rollbackOnError (throw e : Py Unit)) :=
        yields_rollbackOnError (.throw e)
      exact inherited_run hio h.rows hthrow (fun _ => trivial) fun _ _ => trivial
    · exact inherited_store h.rows trivial fun _ => h.client

/-- **A step of a call keeps what is granted.** -/
theorem advance_inherits {c : Client} (hio : G.OfIo io) (hok : c.Ok G.OfDeclaration i sh)
    (h : G.Inherited sh c) :
    G.Inherited (c.advance config i io outcome sh).1 (c.advance config i io outcome sh).2 := by
  cases c with
  | idle => exact h
  | propose args stage =>
    cases stage with
    | running l => exact propose_inherits hio hok h
    | _ => exact h
  | approve args stage =>
    cases stage with
    | running l => exact approve_inherits hio h
    | _ => exact h
  | reject args stage =>
    cases stage with
    | running l => exact reject_inherits hio h
    | _ => exact h
  | demote args stage =>
    cases stage with
    | running l => exact demote_inherits hio hok h
    | _ => exact h
  | importEvents events stage => exact h.client.elim

end Grants

/-! ## Runs -/

namespace System

variable [Hashlib] {config : RuntimeConfig} {W : System} {G : Grants} {directory : Directory}

/-- An action that grants it: no import, a directory whose declarations grant it, surroundings that
do. -/
def Grant (G : Grants) (_ : System) : Action → Prop
  | .replaceDirectory directory => directory.All G.OfDeclaration
  | .start _ (.importEvents _) => False
  | .start _ _ => True
  | .advance _ io _ => G.OfIo io
  | .crash _ => True

/-- Every row and every client has inherited what is granted. -/
def Inherits (G : Grants) (W : System) : Prop := ∀ i, G.Inherited W.shared (W.thread i)

omit [Hashlib] in
theorem inherits_act {i : ℕ} {f : Shared → Client → Shared × Client} (h : Inherits G W)
    (hi : G.Inherited (f W.shared (W.thread i)).1 (f W.shared (W.thread i)).2) :
    Inherits G (W.act i f) := by
  intro j
  by_cases hji : j = i
  · subst hji
    rw [Threads.act_thread_self]
    exact hi
  · rw [Threads.act_thread_of_ne W f hji]
    exact ⟨hi.rows, (h j).client⟩

theorem inherits_next (hinv : Inv G.OfDeclaration W) (h : Inherits G W) {a : Action}
    (ha : Grant G W a) : Inherits G (next config W a) := by
  cases a with
  | replaceDirectory directory => exact fun i => ⟨(h i).rows, (h i).client⟩
  | start i call =>
    refine inherits_act h ?_
    have hi := h i
    rcases ht : W.thread i with _ | _ | _ | _ | _ | _ <;> rw [ht] at hi
    case idle => cases call <;> first | exact ⟨hi.rows, trivial⟩ | exact ha.elim
    all_goals exact hi
  | advance i io outcome => exact inherits_act h (Grants.advance_inherits ha (hinv.own i) (h i))
  | crash i =>
    refine inherits_act h ?_
    have hi := h i
    rcases ht : W.thread i with _ | ⟨_, stage⟩ | ⟨_, stage⟩ | ⟨_, stage⟩ | ⟨_, stage⟩ | _ <;>
      rw [ht] at hi
    case idle => exact hi
    case importEvents => exact hi.client.elim
    all_goals cases stage <;> exact ⟨hi.rows, trivial⟩

omit [Hashlib] in
theorem grant_loadsOnly (W : System) (a : Action) (ha : Grant G W a) :
    LoadsOnly G.OfDeclaration W a := by
  cases a with
  | replaceDirectory directory => exact ha
  | _ => trivial

/-- **Every row of a run has inherited what the run grants.** -/
theorem rows_granted (hdirectory : directory.All G.OfDeclaration)
    (h : Run (next config) (Grant G) (init directory) W) : ∀ e ∈ W.shared.table, G.OfRow e := by
  have hboth := h.invariant (P := fun W => Inv G.OfDeclaration W ∧ Inherits G W)
    (fun V a ha hV => ⟨inv_next hV.1 (grant_loadsOnly V a ha), inherits_next hV.1 hV.2 ha⟩)
    ⟨inv_init hdirectory, fun _ => ⟨by exact nofun, trivial⟩⟩
  exact (hboth.2 0).rows

end System

end PaaRuntime
