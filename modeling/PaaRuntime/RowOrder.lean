import PaaRuntime.Lookups
import PaaRuntime.SystemSpec

/-!
# The order of insertion

No program of the runtime reads the order in which rows were inserted: over the same rows in another
order every call has the same result, raises the same exception and leaves the same rows
(`OrderFree`). One lemma for each program, in the order of the source; `System.same_run` puts them
together for any clients, whatever they call and however their steps interleave.
-/

namespace PaaRuntime

open Prog

/-- The same rows, with distinct ids, inserted in any order. -/
structure SameRows (t t' : Table) : Prop where
  perm : t.Perm t'
  ids : (t.map (·.id)).Nodup

/-- Sessions that differ in the order of rows alone. -/
structure SameSession (s s' : Session) : Prop where
  io : s.io = s'.io
  committed : SameRows s.world.committed s'.world.committed
  working : Option.Rel SameRows s.world.working s'.world.working
  locked : s.world.locked = s'.world.locked
  directory : s.world.directory = s'.world.directory
  disk : s.world.disk = s'.world.disk

/-- A program that does not depend on the order of rows. -/
abbrev OrderFree {α : Type} (x : Py α) : Prop := Respects SameSession x

section

variable {t t' : Table} {s s' : Session} {α : Type}

/-! ## Tables -/

theorem SameRows.distinct (h : SameRows t t') : StampedLog.Distinct AutonomyEvent.stamp t :=
  distinct_of_ids h.ids

theorem SameRows.symm (h : SameRows t t') : SameRows t' t :=
  ⟨h.perm.symm, (h.perm.map _).nodup_iff.1 h.ids⟩

theorem SameRows.eventsForMotion (h : SameRows t t') (m : String) :
    eventsForMotion m t = eventsForMotion m t' :=
  StampedLog.inOrder_perm (h.distinct.filter _) (h.perm.filter _)

theorem SameRows.allEvents (h : SameRows t t') (task : Option String) :
    allEvents task t = allEvents task t' :=
  StampedLog.inOrder_perm (h.distinct.filter _) (h.perm.filter _)

theorem SameRows.latestPositionChanged (h : SameRows t t') (Y : Triple) :
    latestPositionChanged Y t = latestPositionChanged Y t' :=
  StampedLog.latest_perm (h.distinct.filter _) (h.perm.filter _)

theorem SameRows.positionChangedBefore (h : SameRows t t') (Y : Triple) (point : Stamp) :
    positionChangedBefore Y point t = positionChangedBefore Y point t' :=
  StampedLog.before_perm (h.distinct.filter _) (h.perm.filter _) point

/-- A row is refused by both tables for the same key, or goes into both. -/
theorem SameRows.insertRow (h : SameRows t t') (c : Columns) :
    (∃ e, autonomyEvents.insertRow t c = .error e ∧ autonomyEvents.insertRow t' c = .error e) ∨
      ∃ e, autonomyEvents.insertRow t c = .ok (t ++ [e]) ∧
        autonomyEvents.insertRow t' c = .ok (t' ++ [e]) ∧ SameRows (t ++ [e]) (t' ++ [e]) := by
  unfold GuardedTable.insertRow
  rcases autonomyEvents.asRow c with e | e
  · exact .inl ⟨_, rfl, rfl⟩
  · dsimp only
    rw [← GuardedTable.violated_perm h.perm]
    rcases hv : autonomyEvents.violated t e with _ | k
    · refine .inr ⟨e, rfl, rfl, h.perm.append_right [e], ?_⟩
      rw [List.map_append, List.nodup_append]
      refine ⟨h.ids, List.nodup_singleton _, fun i hi j hj => ?_⟩
      obtain ⟨r, hr, rfl⟩ := List.mem_map.1 hi
      rw [List.map_singleton, List.mem_singleton] at hj
      rw [hj]
      exact (violated_eq_none_iff.1 hv r hr).1
    · exact .inl ⟨_, rfl, rfl⟩

theorem SameSession.view (h : SameSession s s') : SameRows s.world.view s'.world.view := by
  have hworking := h.working
  unfold World.view
  generalize s.world.working = x at hworking ⊢
  generalize s'.world.working = x' at hworking ⊢
  cases hworking with
  | none => exact h.committed
  | some hrows => exact hrows

/-! ## Interactions -/

theorem orderFree_tick : OrderFree tick := by
  intro s s' h
  rcases hf : s.io.faults.head with _ | f
  · rw [tick_of_quiet hf, tick_of_quiet (h.io ▸ hf)]
    exact ⟨rfl, by simp only [h.io], h.committed, h.working, h.locked, h.directory, h.disk⟩
  · rw [tick_of_fault hf, tick_of_fault (h.io ▸ hf)]
    exact ⟨rfl, by simp only [h.io], h.committed, h.working, h.locked, h.directory, h.disk⟩

theorem orderFree_draw (get : Io → Stream' α) (set : Stream' α → Io → Io) :
    OrderFree (draw get set) := by
  intro s s' h
  unfold draw
  exact ⟨by rw [h.io], by simp only [h.io], h.committed, h.working, h.locked, h.directory, h.disk⟩

theorem orderFree_newCreatedAt : OrderFree newCreatedAt :=
  orderFree_tick.bind fun _ => orderFree_draw _ _

theorem orderFree_newEventId : OrderFree newEventId :=
  orderFree_tick.bind fun _ => orderFree_draw _ _

theorem orderFree_newMotionId : OrderFree newMotionId :=
  orderFree_tick.bind fun _ => orderFree_draw _ _

theorem orderFree_loadDeclaration (config : RuntimeConfig) (task : String) :
    OrderFree (loadDeclaration config task) :=
  orderFree_tick.bind fun _ => (Respects.gets fun _ _ h => h.directory).bind fun _ => Respects.lift _

theorem orderFree_readEvidenceFile (path : String) : OrderFree (readEvidenceFile path) := by
  refine orderFree_tick.bind fun _ => (Respects.gets fun s s' h => by rw [h.io]).bind fun data => ?_
  cases data with
  | none => exact Respects.throw _
  | some data => exact Respects.pure _

theorem orderFree_resolveActor (explicit : Option String) (envVar : String) :
    OrderFree (resolveActor explicit envVar) := by
  refine orderFree_tick.bind fun _ => (Respects.gets fun s s' h => h.io).bind fun io => ?_
  split
  · exact Respects.pure _
  · split
    · exact Respects.pure _
    · split
      · exact Respects.pure _
      · split_ifs <;> exact Respects.throw _

/-! ## The store -/

theorem orderFree_query {f : Table → α} (hf : ∀ t t', SameRows t t' → f t = f t') :
    OrderFree (query f) :=
  orderFree_tick.bind fun _ => Respects.gets fun _ _ h => hf _ _ h.view

theorem orderFree_getAutonomyEventsForMotion (m : String) :
    OrderFree (getAutonomyEventsForMotion m) := orderFree_query fun _ _ h => h.eventsForMotion m

theorem orderFree_getLatestPositionChangedEvent (Y : Triple) :
    OrderFree (getLatestPositionChangedEvent Y) :=
  (Respects.lift _).bind fun _ => orderFree_query fun _ _ h => h.latestPositionChanged Y

theorem orderFree_getPositionChangedEventBefore (Y : Triple) (createdAt eventId : String) :
    OrderFree (getPositionChangedEventBefore Y createdAt eventId) :=
  (Respects.lift _).bind fun _ => orderFree_query fun _ _ h => h.positionChangedBefore Y _

theorem orderFree_getAutonomyEvents (task : Option String) : OrderFree (getAutonomyEvents task) :=
  orderFree_query fun _ _ h => h.allEvents task

theorem orderFree_insertAutonomyEvent (c : Columns) : OrderFree (insertAutonomyEvent c) := by
  refine Respects.gets_bind fun s s' h => ?_
  have hworking := h.working
  generalize s.world.working = x at hworking ⊢
  generalize s'.world.working = x' at hworking ⊢
  cases hworking with
  | none => exact Respects.throw _
  | some hrows =>
    refine Agrees.bind (Respects.lift _) fun _ => Agrees.bind orderFree_tick fun _ =>
      Agrees.bind (Respects.gets fun _ _ h => h.locked) fun locked =>
        Agrees.bind (Respects.lift _) fun _ => ?_
    rcases hrows.insertRow c with ⟨e, he, he'⟩ | ⟨e, he, he', hsame⟩
    · simp only [he, he']
      exact Respects.throw _
    · simp only [he, he']
      exact fun s s' h => ⟨rfl, h.io, h.committed, .some hsame, h.locked, h.directory, h.disk⟩

theorem orderFree_begin (immediate : Bool) : OrderFree (begin_ immediate) := by
  refine orderFree_tick.bind fun _ => Respects.gets_bind fun s s' h => ?_
  have hnone : s.world.working = none ↔ s'.world.working = none := by
    have hworking := h.working
    generalize s.world.working = x at hworking ⊢
    generalize s'.world.working = x' at hworking ⊢
    cases hworking <;> simp
  simp only [h.locked, hnone]
  exact (Respects.lift _).bind fun _ => (Respects.lift _).bind fun _ s s' h =>
    ⟨rfl, h.io, h.committed, .some h.committed, h.locked, h.directory, h.disk⟩

theorem orderFree_rollback : OrderFree rollback :=
  orderFree_tick.bind fun _ _ _ h =>
    ⟨rfl, h.io, h.committed, .none, h.locked, h.directory, h.disk⟩

theorem orderFree_commit : OrderFree commit := by
  refine orderFree_tick.bind fun _ => (orderFree_draw _ _).bind fun outcome => ?_
  split
  · exact fun _ _ h => ⟨rfl, h.io, h.view, .none, h.locked, h.directory, h.disk⟩
  · exact Respects.throw _
  · exact Respects.bind (fun _ _ h => ⟨rfl, h.io, h.committed, .none, h.locked, h.directory, h.disk⟩)
      fun _ => Respects.throw _

theorem orderFree_rollbackOnError {body : Py α} (h : OrderFree body) :
    OrderFree (rollbackOnError body) :=
  h.tryCatch fun _ => orderFree_rollback.bind fun _ => Respects.throw _

theorem orderFree_closing {body : Py α} (h : OrderFree body) : OrderFree (closing body) :=
  (orderFree_rollbackOnError h).bind fun _ => orderFree_commit.bind fun _ => Respects.pure _

theorem orderFree_transaction {body : Py α} (h : OrderFree body) : OrderFree (transaction body) :=
  (orderFree_begin false).bind fun _ => orderFree_closing h

theorem orderFree_beginImmediate {body : Py α} (h : OrderFree body) :
    OrderFree (beginImmediate body) :=
  (orderFree_begin true).bind fun _ => orderFree_closing h

/-! ## Positions and motions -/

theorem orderFree_foldCurrentPosition (d : PaaTaskDeclaration) (scope : Option String) :
    OrderFree (foldCurrentPosition d scope) :=
  (orderFree_getLatestPositionChangedEvent _).bind fun _ => Respects.pure _

theorem orderFree_resolveCurrentPosition (config : RuntimeConfig) (task : String)
    (scope : Option String) : OrderFree (resolveCurrentPosition config task scope) :=
  (orderFree_loadDeclaration _ _).bind fun _ => (Respects.lift _).bind fun _ =>
    (orderFree_foldCurrentPosition _ _).bind fun _ => Respects.pure _

theorem orderFree_listMotions (status task : Option String) : OrderFree (listMotions status task) :=
  (Respects.lift _).bind fun _ => (orderFree_getAutonomyEvents _).bind fun _ =>
    (Respects.lift _).bind fun _ => Respects.pure _

/-! ## The workflows -/

theorem orderFree_recordEvent (row : String → String → AutonomyEvent) :
    OrderFree (recordEvent row) :=
  orderFree_newEventId.bind fun _ => orderFree_newCreatedAt.bind fun _ =>
    orderFree_insertAutonomyEvent _

theorem orderFree_proposeLoad (config : RuntimeConfig) (args : ProposeArgs) :
    OrderFree (proposeLoad config args) :=
  (orderFree_loadDeclaration _ _).bind fun _ => (Respects.lift _).bind fun _ =>
    (Respects.lift _).bind fun _ => Respects.pure _

theorem orderFree_proposeCheck (d : PaaTaskDeclaration) (scope : Option String)
    (toPosition : AutonomyPosition) : OrderFree (proposeCheck d scope toPosition) :=
  (orderFree_foldCurrentPosition _ _).bind fun _ => Respects.lift _

theorem orderFree_proposeRead (path : String) : OrderFree (proposeRead path) :=
  (orderFree_readEvidenceFile _).bind fun _ => (Respects.lift _).bind fun _ => Respects.pure _

theorem orderFree_proposeActor (config : RuntimeConfig) (actor : Option String) :
    OrderFree (proposeActor config actor) :=
  (orderFree_resolveActor _ _).bind fun _ => orderFree_newMotionId.bind fun _ => Respects.pure _

theorem orderFree_proposeLocked (p : Draft) : OrderFree (proposeLocked p) := by
  refine Respects.bind (orderFree_beginImmediate ?_) fun _ => Respects.lift _
  exact (orderFree_foldCurrentPosition _ _).bind fun _ => (Respects.lift _).bind fun _ =>
    (orderFree_recordEvent _).bind fun _ => orderFree_getAutonomyEventsForMotion _

theorem orderFree_reasonedActor (config : RuntimeConfig) (purpose reason : String)
    (actor : Option String) : OrderFree (reasonedActor config purpose reason actor) :=
  (Respects.lift _).bind fun _ => orderFree_resolveActor _ _

section

variable [Hashlib]

theorem orderFree_approveChecks (config : RuntimeConfig) (proposed : AutonomyEvent) :
    OrderFree (approveChecks config proposed) :=
  orderFree_tick.bind fun _ => (Respects.gets fun _ _ h => h.disk).bind fun _ =>
    (Respects.lift _).bind fun _ => (orderFree_loadDeclaration _ _).bind fun _ =>
      (Respects.lift _).bind fun _ => (Respects.lift _).bind fun _ =>
        (orderFree_getPositionChangedEventBefore _ _ _).bind fun _ =>
          (orderFree_getLatestPositionChangedEvent _).bind fun _ => Respects.lift _

theorem orderFree_approveFresh (config : RuntimeConfig) (args : MotionArgs) (actor : String)
    (proposed : AutonomyEvent) : OrderFree (approveFresh config args actor proposed) :=
  (orderFree_approveChecks _ _).bind fun _ =>
    (Respects.forEach (fun _ => orderFree_recordEvent _) _).bind fun _ =>
      (orderFree_getAutonomyEventsForMotion _).bind fun _ => Respects.pure _

theorem orderFree_approveLocked (config : RuntimeConfig) (args : MotionArgs) (actor : String) :
    OrderFree (approveLocked config args actor) := by
  refine Respects.bind (orderFree_beginImmediate ?_) fun _ => Respects.lift _
  refine (orderFree_getAutonomyEventsForMotion _).bind fun events =>
    (Respects.lift _).bind fun proposed => ?_
  split
  · exact Respects.throw _
  · exact Respects.throw _
  · split_ifs
    · exact (Respects.lift _).bind fun _ => Respects.pure _
    · exact Respects.throw _
  · exact Respects.throw _
  · exact Respects.throw _
  · exact orderFree_approveFresh _ _ _ _

end

theorem orderFree_rejectLocked (args : MotionArgs) (actor : String) :
    OrderFree (rejectLocked args actor) := by
  refine Respects.bind (orderFree_beginImmediate ?_) fun _ => Respects.lift _
  refine (orderFree_getAutonomyEventsForMotion _).bind fun events =>
    (Respects.lift _).bind fun proposed => ?_
  split
  · split_ifs
    · exact (Respects.lift _).bind fun _ => Respects.pure _
    · exact Respects.throw _
  · exact Respects.throw _
  · exact (orderFree_recordEvent _).bind fun _ =>
      (orderFree_getAutonomyEventsForMotion _).bind fun _ => Respects.pure _
  · exact Respects.throw _

theorem orderFree_demoteLoad (config : RuntimeConfig) (args : DemoteArgs) :
    OrderFree (demoteLoad config args) :=
  (Respects.lift _).bind fun _ => (orderFree_loadDeclaration _ _).bind fun _ =>
    (Respects.lift _).bind fun _ => (orderFree_resolveActor _ _).bind fun _ => Respects.pure _

theorem orderFree_demoteOpen (config : RuntimeConfig) (args : DemoteArgs) (d : PaaTaskDeclaration)
    (actor : String) : OrderFree (demoteOpen config args d actor) := by
  refine (orderFree_begin true).bind fun _ => orderFree_rollbackOnError ?_
  exact (orderFree_resolveCurrentPosition _ _ _).bind fun _ => (Respects.lift _).bind fun _ =>
    orderFree_newCreatedAt.bind fun _ => Respects.pure _

theorem orderFree_demoteClose (args : DemoteArgs) (d : PaaTaskDeclaration) (actor : String)
    (fromPosition : AutonomyPosition) (ref sha : String) :
    OrderFree (demoteClose args d actor fromPosition ref sha) := by
  refine Respects.bind (orderFree_closing ?_) fun _ => Respects.lift _
  exact orderFree_newMotionId.bind fun _ =>
    (Respects.forEach (fun _ => orderFree_recordEvent _) _).bind fun _ =>
      orderFree_getAutonomyEventsForMotion _

theorem orderFree_importEvents (events : List (Except PyError EventMapping)) :
    OrderFree (importEvents events) := by
  refine orderFree_transaction (Respects.forEach (fun next => ?_) events)
  exact (Respects.lift _).bind fun _ => (Respects.lift _).bind fun _ =>
    orderFree_insertAutonomyEvent _

end

/-! ## Clients -/

/-- What clients share differs in the order of rows alone. -/
structure SameShared (sh sh' : Shared) : Prop where
  table : SameRows sh.table sh'.table
  directory : sh.directory = sh'.directory
  disk : sh.disk = sh'.disk
  lock : sh.lock = sh'.lock

/-- What a step leaves is shared alike, and the client goes on alike. -/
def SameStep {γ : Type} (r r' : Shared × γ) : Prop := SameShared r.1 r'.1 ∧ r.2 = r'.2

theorem SameStep.map {γ δ : Type} {r r' : Shared × γ} (h : SameStep r r') (f : γ → δ) :
    SameStep (r.1, f r.2) (r'.1, f r'.2) := ⟨h.1, congrArg f h.2⟩

namespace SameShared

variable {Λ ρ α : Type} {sh sh' : Shared} (h : SameShared sh sh')

include h

theorem session (i : ℕ) (io : Io) : SameSession (sh.session i io) (sh'.session i io) := by
  refine ⟨rfl, h.table, ?_, ?_, h.directory, h.disk⟩
  · unfold Shared.session
    dsimp only
    rw [h.lock]
    split_ifs
    · exact .some h.table
    · exact .none
  · unfold Shared.session
    dsimp only
    rw [h.lock]

theorem release (i : ℕ) : SameShared (sh.release i) (sh'.release i) := by
  refine ⟨h.table, h.directory, h.disk, ?_⟩
  unfold Shared.release
  rw [h.lock]

theorem after (i : ℕ) {s s' : Session} (hs : SameSession s s') :
    SameShared (sh.after i s.world) (sh'.after i s'.world) := by
  refine ⟨hs.committed, h.directory, hs.disk, ?_⟩
  have hworking := hs.working
  unfold Shared.after
  rw [h.lock, (h.release i).lock]
  generalize s.world.working = x at hworking ⊢
  generalize s'.world.working = x' at hworking ⊢
  cases hworking <;> rfl

theorem run (i : ℕ) (io : Io) {x : Py α} (hx : OrderFree x) (k : α → Stage Λ ρ) :
    SameStep (sh.run i io x k) (sh'.run i io x k) := by
  obtain ⟨hr, hs⟩ := hx _ _ (h.session i io)
  unfold Shared.run
  rcases hrun : x (sh.session i io) with ⟨r, s⟩
  rcases hrun' : x (sh'.session i io) with ⟨r', s'⟩
  rw [hrun, hrun'] at hr hs
  obtain rfl : r = r' := hr
  cases r <;> exact ⟨h.after i hs, rfl⟩

variable [Hashlib]

theorem store (i : ℕ) (root : String) (outcome : StepOutcome) (call : StoreCall)
    (k : StoreCall → Λ) :
    SameStep (sh.store i root outcome call k : Shared × Stage Λ ρ)
      (sh'.store i root outcome call k) := by
  unfold Shared.store
  rw [h.disk]
  dsimp only
  have hstored : SameShared { sh with disk := (call.step root outcome sh'.disk).1 }
      { sh' with disk := (call.step root outcome sh'.disk).1 } :=
    ⟨h.table, h.directory, rfl, h.lock⟩
  split
  · exact ⟨hstored.release i, rfl⟩
  · exact ⟨hstored, rfl⟩

variable (config : RuntimeConfig) (i : ℕ) (io : Io) (outcome : StepOutcome)

theorem proposeStep (args : ProposeArgs) (l : ProposeAt) :
    SameStep (proposeStep config args i io outcome sh l)
      (proposeStep config args i io outcome sh' l) := by
  cases l with
  | called => exact h.run i io (orderFree_proposeLoad _ _) _
  | loaded d toPosition => exact h.run i io (orderFree_proposeCheck _ _ _) _
  | checked d toPosition => exact h.run i io (orderFree_proposeRead _) _
  | storing d toPosition call =>
    simp only [PaaRuntime.proposeStep]
    split
    · exact h.run i io (orderFree_proposeActor _ _) _
    · exact ⟨h, rfl⟩
    · exact h.store i _ outcome call _
  | ready data draft => exact h.run i io (orderFree_proposeLocked _) _

theorem demoteStep (args : DemoteArgs) (l : DemoteAt) :
    SameStep (demoteStep config args i io outcome sh l)
      (demoteStep config args i io outcome sh' l) := by
  cases l with
  | called => exact h.run i io (orderFree_demoteLoad _ _) _
  | loaded d actor => exact h.run i io (orderFree_demoteOpen _ _ _ _) _
  | storing d actor fromPosition call =>
    simp only [PaaRuntime.demoteStep]
    split
    · exact h.run i io (orderFree_demoteClose _ _ _ _ _ _) _
    · exact h.run i io (orderFree_rollbackOnError (Respects.throw _)) _
    · exact h.store i _ outcome call _

/-- A client goes on alike. -/
theorem advance (c : Client) :
    SameStep (c.advance config i io outcome sh) (c.advance config i io outcome sh') := by
  rcases c with _ | ⟨args, stage⟩ | ⟨args, stage⟩ | ⟨args, stage⟩ | ⟨args, stage⟩ | ⟨events, stage⟩
  case idle => exact ⟨h, rfl⟩
  case propose =>
    cases stage with
    | running l => exact (h.proposeStep config i io outcome args l).map (Client.propose args)
    | _ => exact ⟨h, rfl⟩
  case approve =>
    rcases stage with (_ | actor) | _ | _ | _
    · exact (h.run i io (orderFree_reasonedActor _ _ _ _) _).map (Client.approve args)
    · exact (h.run i io (orderFree_approveLocked _ _ _) _).map (Client.approve args)
    all_goals exact ⟨h, rfl⟩
  case reject =>
    rcases stage with (_ | actor) | _ | _ | _
    · exact (h.run i io (orderFree_reasonedActor _ _ _ _) _).map (Client.reject args)
    · exact (h.run i io (orderFree_rejectLocked _ _) _).map (Client.reject args)
    all_goals exact ⟨h, rfl⟩
  case demote =>
    cases stage with
    | running l => exact (h.demoteStep config i io outcome args l).map (Client.demote args)
    | _ => exact ⟨h, rfl⟩
  case importEvents =>
    cases stage with
    | running l => exact (h.run i io (orderFree_importEvents _) _).map (Client.importEvents events)
    | _ => exact ⟨h, rfl⟩

omit [Hashlib] in
theorem crash (c : Client) : SameStep (c.crash i sh) (c.crash i sh') := by
  cases c with
  | idle => exact ⟨h, rfl⟩
  | _ => exact ⟨h.release i, rfl⟩

omit [Hashlib] in
theorem start (call : Call) (c : Client) : SameStep (c.start call sh) (c.start call sh') := by
  cases c <;> exact ⟨h, rfl⟩

end SameShared

namespace System

/-- Two systems differ in the order of rows alone. -/
structure Same (W W' : System) : Prop where
  shared : SameShared W.shared W'.shared
  thread : W.thread = W'.thread

theorem Same.act {W W' : System} (h : Same W W') (i : ℕ) {f : Shared → Client → Shared × Client}
    (hf : ∀ c, SameStep (f W.shared c) (f W'.shared c)) : Same (W.act i f) (W'.act i f) := by
  obtain ⟨hshared, hclient⟩ := hf (W.thread i)
  refine ⟨?_, ?_⟩
  · rw [Threads.act_shared, Threads.act_shared, ← h.thread]
    exact hshared
  · unfold Threads.act
    rw [← h.thread, hclient]

variable [Hashlib] {config : RuntimeConfig} {W W' : System}

theorem same_next (h : Same W W') (a : Action) : Same (next config W a) (next config W' a) := by
  cases a with
  | replaceDirectory directory =>
    exact ⟨⟨h.shared.table, rfl, h.shared.disk, h.shared.lock⟩, h.thread⟩
  | start i call => exact h.act i fun c => h.shared.start call c
  | advance i io outcome => exact h.act i fun c => h.shared.advance config i io outcome c
  | crash i => exact h.act i fun c => h.shared.crash i c

/-- Whatever happens, systems that differ in the order of rows alone go on doing so. -/
theorem same_run (h : Same W W') (actions : List Action) :
    Same (actions.foldl (next config) W) (actions.foldl (next config) W') := by
  induction actions generalizing W W' with
  | nil => exact h
  | cons a actions ih => exact ih (same_next h a)

end System

end PaaRuntime
