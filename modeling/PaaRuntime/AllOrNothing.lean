import PaaRuntime.Replay

/-!
# All or nothing

A call that raises leaves the committed table as it was, wherever it fails: in the load of the
declaration, the checks, the evidence, the operator, the lock, any single insert, the COMMIT. A call
that returns has appended exactly its own rows. The first half is `RaisesClean Session.committed`;
what it rests on is that nothing after a COMMIT can raise, since every block leaves with rows that
project.
-/

namespace PaaRuntime

open Prog

section

variable {α : Type}

theorem keeps_committed_of_database {x : Py α} (h : Keeps Session.database x) :
    Keeps Session.committed x := by
  intro s
  have hs := congrArg World.committed (h s)
  exact hs

theorem keeps_outside_forEach_recordEvent
    (row : AutonomyEventType → String → String → AutonomyEvent) (kinds : List AutonomyEventType) :
    Keeps Session.outside (forEach (fun k => recordEvent (row k)) kinds) :=
  Keeps.forEach (fun _ => keeps_outside_recordEvent _) _

theorem keeps_outside_query (f : Table → α) : Keeps Session.outside (query f) :=
  keeps_outside_of_world (keeps_world_query f)

end

/-! ## Blocks -/

theorem keeps_outside_proposeBlock (p : Draft) : Keeps Session.outside (proposeBlock p) :=
  (keeps_outside_of_world (keeps_world_foldCurrentPosition _ _)).bind fun _ =>
    (Keeps.lift _).bind fun _ =>
      (keeps_outside_recordEvent _).bind fun _ =>
        keeps_outside_query _

theorem keeps_outside_rejectBlock (args : MotionArgs) (actor : String) :
    Keeps Session.outside (rejectBlock args actor) := by
  refine (keeps_outside_query _).bind fun events => (Keeps.lift _).bind fun p => ?_
  split
  · split_ifs
    · exact (Keeps.lift _).bind fun _ => Keeps.pure _
    · exact Keeps.throw _
  · exact Keeps.throw _
  · exact (keeps_outside_recordEvent _).bind fun _ =>
      (keeps_outside_query _).bind fun _ => Keeps.pure _
  · exact Keeps.throw _

theorem keeps_outside_demoteRecord (args : DemoteArgs) (d : PaaTaskDeclaration) (actor : String)
    (fromPosition : AutonomyPosition) (ref sha : String) :
    Keeps Session.outside (demoteRecord args d actor fromPosition ref sha) :=
  (keeps_outside_of_world keeps_world_newMotionId).bind fun _ =>
    (keeps_outside_forEach_recordEvent _ _).bind fun _ => keeps_outside_query _

theorem keeps_world_demoteResolve (config : RuntimeConfig) (args : DemoteArgs)
    (d : PaaTaskDeclaration) (actor : String) :
    Keeps Session.world (demoteResolve config args d actor) :=
  (keeps_world_resolveCurrentPosition _ _ _).bind fun _ => (Keeps.lift _).bind fun _ =>
    keeps_world_newCreatedAt.bind fun _ => Keeps.pure _

variable [Hashlib]

theorem keeps_world_approveChecks (config : RuntimeConfig) (proposed : AutonomyEvent) :
    Keeps Session.world (approveChecks config proposed) :=
  keeps_world_tick.bind fun _ => (Keeps.gets _).bind fun _ => (Keeps.lift _).bind fun _ =>
    (keeps_world_loadDeclaration _ _).bind fun _ => (Keeps.lift _).bind fun _ =>
      (Keeps.lift _).bind fun _ =>
        ((Keeps.lift _).bind fun _ => keeps_world_query _ :
          Keeps Session.world (getPositionChangedEventBefore _ _ _)).bind fun _ =>
          (keeps_world_getLatestPositionChangedEvent _).bind fun _ => Keeps.lift _

theorem keeps_outside_approveBlock (config : RuntimeConfig) (args : MotionArgs) (actor : String) :
    Keeps Session.outside (approveBlock config args actor) := by
  refine (keeps_outside_query _).bind fun events => (Keeps.lift _).bind fun p => ?_
  split
  · exact Keeps.throw _
  · exact Keeps.throw _
  · split_ifs
    · exact (Keeps.lift _).bind fun _ => Keeps.pure _
    · exact Keeps.throw _
  · exact Keeps.throw _
  · exact Keeps.throw _
  · exact (keeps_outside_of_world (keeps_world_approveChecks _ _)).bind fun _ =>
      (keeps_outside_forEach_recordEvent _ _).bind fun _ =>
        (keeps_outside_query _).bind fun _ => Keeps.pure _

theorem keeps_committed_demoteBlock (config : RuntimeConfig) (args : DemoteArgs)
    (d : PaaTaskDeclaration) (actor : String) :
    Keeps Session.committed (demoteBlock config args d actor) :=
  (keeps_committed_of_world (keeps_world_demoteResolve _ _ _ _)).bind fun _ =>
    (keeps_committed_of_database (keeps_database_storeEvidence _ _)).bind fun _ =>
      keeps_committed_of_outside (keeps_outside_demoteRecord _ _ _ _ _ _)

/-- What the block of `demote` has done when it returns. -/
theorem demoteBlock_ok {config : RuntimeConfig} {args : DemoteArgs} {d : PaaTaskDeclaration}
    {actor : String} {s s' : Session} {t events : Table} (hs : s.world.working = some t)
    (h : demoteBlock config args d actor s = (.ok events, s')) :
    ∃ fromPosition ref sha motionId p a c,
      Demotes args d actor fromPosition ref sha motionId t p a c ∧
      events = eventsForMotion motionId (t ++ [p, a, c]) ∧
      s'.world.view = t ++ [p, a, c] := by
  obtain ⟨r, s₁, h₁, h₂⟩ := bind_ok.1 h
  have hw₁ := (demoteResolve_ok h₁).1
  obtain ⟨e, s₂, -, hw₂, h₃⟩ := (keeps_database_storeEvidence _ _).bind_ok h₂
  have hworking : s₂.world.working = some t := by
    rw [← hs, ← hw₁]
    have hworking := congrArg World.working hw₂
    exact hworking
  obtain ⟨motionId, p, a, c, hdem, hevents, hw₃⟩ := demoteRecord_ok hworking h₃
  exact ⟨_, _, _, motionId, p, a, c, hdem, hevents, by rw [hw₃]; rfl⟩

/-! ## Nothing after a COMMIT raises -/

omit [Hashlib] in
theorem proposeBlock_projects {p : Draft} {s s' : Session} {events : Table}
    (h : beginImmediate (proposeBlock p) s = (.ok events, s')) :
    ∃ m, projectMotion events = .ok m := by
  obtain ⟨-, -, s₀, s₂, hw₀, hbody, -⟩ := beginImmediate_ok h
  obtain ⟨row, hpro, rfl, -⟩ := proposeBlock_ok (t := s.world.committed) (by rw [hw₀]; rfl) hbody
  have hrow : row.motionId = p.motionId ∧ row.event = .motionProposed := by
    obtain ⟨id, createdAt, rfl⟩ := hpro.row
    exact ⟨rfl, rfl⟩
  obtain ⟨m, hm, -⟩ := projectMotion_eventsForMotion_ok
    (List.mem_append_right s.world.committed (List.mem_singleton_self row)) hrow.1 hrow.2
  exact ⟨m, hm⟩

theorem approveBlock_projects {config : RuntimeConfig} {args : MotionArgs} {actor : String}
    {s s' : Session} {exit : Exit}
    (h : beginImmediate (approveBlock config args actor) s = (.ok exit, s')) :
    ∃ m, exit.motion = .ok m := by
  obtain ⟨-, -, s₀, s₂, hw₀, hbody, -⟩ := beginImmediate_ok h
  rcases approveBlock_ok (t := s.world.committed) (by rw [hw₀]; rfl) hbody with
    ⟨m, p, a, c, rfl, -⟩ | ⟨p, a, c, happ, rfl, -⟩
  · exact ⟨m, rfl⟩
  · obtain ⟨m, hm, -⟩ := projectMotion_eventsForMotion_ok
      (List.mem_append_left [a, c] happ.pending.mem) happ.pending.motion happ.pending.kind
    exact ⟨m, hm⟩

omit [Hashlib] in
theorem rejectBlock_projects {args : MotionArgs} {actor : String} {s s' : Session} {exit : Exit}
    (h : beginImmediate (rejectBlock args actor) s = (.ok exit, s')) :
    ∃ m, exit.motion = .ok m := by
  obtain ⟨-, -, s₀, s₂, hw₀, hbody, -⟩ := beginImmediate_ok h
  rcases rejectBlock_ok (t := s.world.committed) (by rw [hw₀]; rfl) hbody with
    ⟨m, p, r, rfl, -⟩ | ⟨p, r, hrej, rfl, -⟩
  · exact ⟨m, rfl⟩
  · obtain ⟨m, hm, -⟩ := projectMotion_eventsForMotion_ok
      (List.mem_append_left [r] hrej.pending.mem) hrej.pending.motion hrej.pending.kind
    exact ⟨m, hm⟩

theorem demoteBlock_projects {config : RuntimeConfig} {args : DemoteArgs} {d : PaaTaskDeclaration}
    {actor : String} {s s' : Session} {events : Table}
    (h : beginImmediate (demoteBlock config args d actor) s = (.ok events, s')) :
    ∃ m, projectMotion events = .ok m := by
  obtain ⟨-, -, s₀, s₂, hw₀, hbody, -⟩ := beginImmediate_ok h
  obtain ⟨fromPosition, ref, sha, motionId, p, a, c, hdem, rfl, -⟩ :=
    demoteBlock_ok (t := s.world.committed) (by rw [hw₀]; rfl) hbody
  obtain ⟨m, hm, -⟩ := hdem.motion
  exact ⟨m, hm⟩

omit [Hashlib] in
/-- A projection that gives a motion does not raise. -/
theorem liftM_ne_error {α : Type} {r : Except PyError α} (h : ∃ a, r = .ok a) {s s' : Session}
    {e : PyError} : (liftM r : Py α) s ≠ (.error e, s') := by
  obtain ⟨a, rfl⟩ := h
  simp

/-! ## Calls that raise -/

omit [Hashlib] in
theorem proposeLocked_raisesClean (p : Draft) : RaisesClean Session.committed (proposeLocked p) :=
  .bind_last (block_raisesClean (keeps_committed_of_outside (keeps_outside_proposeBlock p)))
    fun _ _ _ _ _ h => liftM_ne_error (proposeBlock_projects h)

theorem approveLocked_raisesClean (config : RuntimeConfig) (args : MotionArgs) (actor : String) :
    RaisesClean Session.committed (approveLocked config args actor) :=
  .bind_last
    (block_raisesClean (keeps_committed_of_outside (keeps_outside_approveBlock config args actor)))
    fun _ _ _ _ _ h => liftM_ne_error (approveBlock_projects h)

omit [Hashlib] in
theorem rejectLocked_raisesClean (args : MotionArgs) (actor : String) :
    RaisesClean Session.committed (rejectLocked args actor) :=
  .bind_last (block_raisesClean (keeps_committed_of_outside (keeps_outside_rejectBlock args actor)))
    fun _ _ _ _ _ h => liftM_ne_error (rejectBlock_projects h)

/-! ## Parts before the block -/

omit [Hashlib] in
theorem keeps_world_proposeLoad (config : RuntimeConfig) (args : ProposeArgs) :
    Keeps Session.world (proposeLoad config args) :=
  (keeps_world_loadDeclaration _ _).bind fun _ => (Keeps.lift _).bind fun _ =>
    (Keeps.lift _).bind fun _ => Keeps.pure _

omit [Hashlib] in
theorem keeps_world_proposeCheck (d : PaaTaskDeclaration) (scope : Option String)
    (toPosition : AutonomyPosition) : Keeps Session.world (proposeCheck d scope toPosition) :=
  (keeps_world_foldCurrentPosition _ _).bind fun _ => Keeps.lift _

omit [Hashlib] in
theorem keeps_world_proposeRead (path : String) : Keeps Session.world (proposeRead path) :=
  (keeps_world_readEvidenceFile _).bind fun _ => (Keeps.lift _).bind fun _ => Keeps.pure _

omit [Hashlib] in
theorem keeps_world_proposeActor (config : RuntimeConfig) (actor : Option String) :
    Keeps Session.world (proposeActor config actor) :=
  (keeps_world_resolveActor _ _).bind fun _ => keeps_world_newMotionId.bind fun _ => Keeps.pure _

omit [Hashlib] in
theorem keeps_world_reasonedActor (config : RuntimeConfig) (purpose reason : String)
    (actor : Option String) : Keeps Session.world (reasonedActor config purpose reason actor) :=
  (Keeps.lift _).bind fun _ => keeps_world_resolveActor _ _

omit [Hashlib] in
theorem keeps_world_demoteLoad (config : RuntimeConfig) (args : DemoteArgs) :
    Keeps Session.world (demoteLoad config args) :=
  (Keeps.lift _).bind fun _ => (keeps_world_loadDeclaration _ _).bind fun _ =>
    (Keeps.lift _).bind fun _ => (keeps_world_resolveActor _ _).bind fun _ => Keeps.pure _

theorem propose_raisesClean (config : RuntimeConfig) (args : ProposeArgs) :
    RaisesClean Session.committed (propose config args) :=
  .bind (keeps_committed_of_world (keeps_world_proposeLoad _ _)) fun _ =>
    .bind (keeps_committed_of_world (keeps_world_proposeCheck _ _ _)) fun _ =>
      .bind (keeps_committed_of_world (keeps_world_proposeRead _)) fun _ =>
        .bind (keeps_committed_of_database (keeps_database_storeEvidence _ _)) fun _ =>
          .bind (keeps_committed_of_world (keeps_world_proposeActor _ _)) fun _ =>
            proposeLocked_raisesClean _

theorem approve_raisesClean (config : RuntimeConfig) (args : MotionArgs) :
    RaisesClean Session.committed (approve config args) :=
  .bind (keeps_committed_of_world (keeps_world_reasonedActor _ _ _ _)) fun _ =>
    approveLocked_raisesClean _ _ _

omit [Hashlib] in
theorem reject_raisesClean (config : RuntimeConfig) (args : MotionArgs) :
    RaisesClean Session.committed (reject config args) :=
  .bind (keeps_committed_of_world (keeps_world_reasonedActor _ _ _ _)) fun _ =>
    rejectLocked_raisesClean _ _

theorem demote_raisesClean (config : RuntimeConfig) (args : DemoteArgs) :
    RaisesClean Session.committed (demote config args) :=
  .bind (keeps_committed_of_world (keeps_world_demoteLoad _ _)) fun _ =>
    .bind_last (block_raisesClean (keeps_committed_demoteBlock config args _ _))
      fun _ _ _ _ _ h => liftM_ne_error (demoteBlock_projects h)

omit [Hashlib] in
theorem importEvents_raisesClean (events : List (Except PyError EventMapping)) :
    RaisesClean Session.committed (importEvents events) :=
  block_raisesClean (Keeps.forEach
    (fun next => keeps_committed_of_outside (keeps_outside_importEvent next)) events)

/-! ## Calls -/

/-- The operations on an event store, with their arguments. -/
inductive Call
  | propose (args : ProposeArgs)
  | approve (args : MotionArgs)
  | reject (args : MotionArgs)
  | demote (args : DemoteArgs)
  | importEvents (events : List (Except PyError EventMapping))

namespace Call

/-- A call: its motion, or none for an import. -/
def run (config : RuntimeConfig) : Call → Py (Option Motion)
  | .propose args => some <$> PaaRuntime.propose config args
  | .approve args => some <$> PaaRuntime.approve config args
  | .reject args => some <$> PaaRuntime.reject config args
  | .demote args => some <$> PaaRuntime.demote config args
  | .importEvents events => (fun _ => none) <$> PaaRuntime.importEvents events

/-- The rows that are a call's own when it returns over a table. -/
inductive Own : Call → Option Motion → Table → List AutonomyEvent → Prop
  | proposed {args m t e} (hm : e.motionId = m.motionId) (hk : e.event = .motionProposed) :
      Own (.propose args) (some m) t [e]
  | approved {args m t a c} (hm : m.motionId = args.motionId)
      (hms : a.motionId = args.motionId ∧ c.motionId = args.motionId)
      (hks : a.event = .motionApproved ∧ c.event = .positionChanged)
      (hnone : ∀ e ∈ t, e.motionId = args.motionId → e.event = .motionProposed) :
      Own (.approve args) (some m) t [a, c]
  | approvedBefore {args m t a c} (hm : m.motionId = args.motionId) (ha : a ∈ t) (hc : c ∈ t)
      (hms : a.motionId = args.motionId ∧ c.motionId = args.motionId)
      (hks : a.event = .motionApproved ∧ c.event = .positionChanged) :
      Own (.approve args) (some m) t []
  | rejected {args m t r} (hm : m.motionId = args.motionId) (hr : r.motionId = args.motionId)
      (hk : r.event = .motionRejected)
      (hnone : ∀ e ∈ t, e.motionId = args.motionId → e.event = .motionProposed) :
      Own (.reject args) (some m) t [r]
  | rejectedBefore {args m t r} (hm : m.motionId = args.motionId) (hr : r ∈ t)
      (hmr : r.motionId = args.motionId) (hk : r.event = .motionRejected) :
      Own (.reject args) (some m) t []
  | demoted {args m t p a c}
      (hms : p.motionId = m.motionId ∧ a.motionId = m.motionId ∧ c.motionId = m.motionId)
      (hks : p.event = .motionProposed ∧ a.event = .motionApproved ∧ c.event = .positionChanged) :
      Own (.demote args) (some m) t [p, a, c]
  | imported {t} (written : List AutonomyEvent) :
      Own (.importEvents (written.map fun e => .ok e.toJsonDict)) none t written

theorem run_raisesClean (config : RuntimeConfig) (call : Call) :
    RaisesClean Session.committed (call.run config) := by
  have hmap : ∀ {α : Type} {x : Py α} (f : α → Option Motion), RaisesClean Session.committed x →
      RaisesClean Session.committed (f <$> x) := by
    intro α x f hx s e s' h
    rw [map_run] at h
    rcases hr : x s with ⟨e' | a, s₁⟩ <;> rw [hr] at h <;> cases h
    exact hx s _ _ hr
  cases call with
  | propose args => exact hmap _ (propose_raisesClean config args)
  | approve args => exact hmap _ (approve_raisesClean config args)
  | reject args => exact hmap _ (reject_raisesClean config args)
  | demote args => exact hmap _ (demote_raisesClean config args)
  | importEvents events => exact hmap _ (importEvents_raisesClean events)

end Call

/-! ## Calls that return -/

section

variable {config : RuntimeConfig} {s s' : Session} {m : Motion}

/-- A `propose` that returns has appended the proposal of a draft under the declaration loaded. -/
theorem propose_ok {args : ProposeArgs} (h : propose config args s = (.ok m, s')) :
    ∃ p e, getPaaDeclaration config s.world.directory args.task = .ok p.declaration ∧
      p.scope = args.scope ∧ m.motionId = p.motionId ∧ Proposes p s.committed e ∧
      s'.committed = s.committed ++ [e] := by
  obtain ⟨r, s₁, hr, hc₁, h₁⟩ :=
    (keeps_committed_of_world (keeps_world_proposeLoad _ _)).bind_ok h
  obtain ⟨_, s₂, -, hc₂, h₂⟩ :=
    (keeps_committed_of_world (keeps_world_proposeCheck _ _ _)).bind_ok h₁
  obtain ⟨data, s₃, -, hc₃, h₃⟩ :=
    (keeps_committed_of_world (keeps_world_proposeRead _)).bind_ok h₂
  obtain ⟨stored, s₄, -, hc₄, h₄⟩ :=
    (keeps_committed_of_database (keeps_database_storeEvidence _ _)).bind_ok h₃
  obtain ⟨actor, s₅, -, hc₅, h₅⟩ :=
    (keeps_committed_of_world (keeps_world_proposeActor _ _)).bind_ok h₄
  obtain ⟨-, -, hm, e, hpro, hw⟩ := proposeLocked_ok h₅
  have hc : s₅.world.committed = s.committed := by
    show s₅.committed = _
    rw [hc₅, hc₄, hc₃, hc₂, hc₁]
  rw [hc] at hpro hw
  exact ⟨_, e, (proposeLoad_ok hr).1, rfl, hm, hpro, congrArg World.committed hw⟩

/-- An `approve` that returns has found the motion executed, or has approved it. -/
theorem approve_ok {args : MotionArgs} (h : approve config args s = (.ok m, s')) :
    projectMotion (eventsForMotion args.motionId s'.committed) = .ok m ∧
      ((∃ p a c, Executed s.committed args.motionId p a c ∧ s'.committed = s.committed) ∨
        ∃ actor p a c,
          Approves config s.world.directory s.world.disk args actor s.committed p a c ∧
          s'.committed = s.committed ++ [a, c]) := by
  obtain ⟨actor, s₁, -, hw₁, h₁⟩ := (keeps_world_reasonedActor _ _ _ _).bind_ok h
  obtain ⟨-, -, hm, hcase⟩ := approveLocked_ok h₁
  rw [hw₁] at hcase
  refine ⟨hm, ?_⟩
  rcases hcase with ⟨p, a, c, hexec, hw⟩ | ⟨p, a, c, happ, hw⟩
  · exact .inl ⟨p, a, c, hexec, congrArg World.committed hw⟩
  · exact .inr ⟨actor, p, a, c, happ, congrArg World.committed hw⟩

omit [Hashlib] in
/-- A `reject` that returns has found the motion rejected, or has rejected it. -/
theorem reject_ok {args : MotionArgs} (h : reject config args s = (.ok m, s')) :
    projectMotion (eventsForMotion args.motionId s'.committed) = .ok m ∧
      ((∃ p r, Rejected s.committed args.motionId p r ∧ s'.committed = s.committed) ∨
        ∃ actor p r, Rejects args actor s.committed p r ∧ s'.committed = s.committed ++ [r]) := by
  obtain ⟨actor, s₁, -, hw₁, h₁⟩ := (keeps_world_reasonedActor _ _ _ _).bind_ok h
  obtain ⟨-, -, hm, hcase⟩ := rejectLocked_ok h₁
  rw [hw₁] at hcase
  refine ⟨hm, ?_⟩
  rcases hcase with ⟨p, r, hrejected, hw⟩ | ⟨p, r, hrej, hw⟩
  · exact .inl ⟨p, r, hrejected, congrArg World.committed hw⟩
  · exact .inr ⟨actor, p, r, hrej, congrArg World.committed hw⟩

/-- A `demote` that returns has appended the three rows of a motion under the declaration loaded. -/
theorem demote_ok {args : DemoteArgs} (h : demote config args s = (.ok m, s')) :
    ∃ d actor fromPosition ref sha p a c,
      getPaaDeclaration config s.world.directory args.task = .ok d ∧
      Demotes args d actor fromPosition ref sha m.motionId s.committed p a c ∧
      s'.committed = s.committed ++ [p, a, c] := by
  obtain ⟨r, s₁, hr, hc₁, h₁⟩ :=
    (keeps_committed_of_world (keeps_world_demoteLoad _ _)).bind_ok h
  obtain ⟨events, s₂, h₂, h₃⟩ := bind_ok.1 h₁
  obtain ⟨-, -, s₃, s₄, hw₃, hbody, hw₂⟩ := beginImmediate_ok h₂
  obtain ⟨hm, rfl⟩ := liftM_ok.1 h₃
  obtain ⟨fromPosition, ref, sha, motionId, p, a, c, hdem, rfl, hview⟩ :=
    demoteBlock_ok (t := s₁.world.committed) (by rw [hw₃]; rfl) hbody
  obtain rfl : m.motionId = motionId := projectMotion_motionId hm
  have hc : s₁.world.committed = s.committed := hc₁
  rw [hc] at hdem hview
  refine ⟨_, _, _, _, _, p, a, c, (demoteLoad_ok hr).1, hdem, ?_⟩
  show s'.world.committed = _
  rw [hw₂, World.commitAs_committed, hview]

theorem propose_own {args : ProposeArgs} (h : propose config args s = (.ok m, s')) :
    ∃ written, s'.committed = s.committed ++ written ∧
      Call.Own (.propose args) (some m) s.committed written := by
  obtain ⟨p, e, -, -, hm, hpro, hc⟩ := propose_ok h
  obtain ⟨id, createdAt, hrow⟩ := hpro.row
  refine ⟨[e], hc, .proposed ?_ ?_⟩
  · rw [hm, hrow]
    rfl
  · rw [hrow]
    rfl

theorem approve_own {args : MotionArgs} (h : approve config args s = (.ok m, s')) :
    ∃ written, s'.committed = s.committed ++ written ∧
      Call.Own (.approve args) (some m) s.committed written := by
  obtain ⟨hproject, hcase⟩ := approve_ok h
  have hm := projectMotion_motionId hproject
  rcases hcase with ⟨p, a, c, hexec, hc⟩ | ⟨actor, p, a, c, happ, hc⟩
  · obtain ⟨hma, hka⟩ := byEvent_eq_some hexec.approval
    obtain ⟨hmc, hkc⟩ := byEvent_eq_some hexec.change
    rw [mem_eventsForMotion] at hma hmc
    refine ⟨[], ?_, .approvedBefore hm hma.1 hmc.1 ⟨hma.2, hmc.2⟩ ⟨hka, hkc⟩⟩
    rw [List.append_nil, hc]
  · obtain ⟨ida, ata, hrowa⟩ := happ.approvedRow
    obtain ⟨idc, atc, hrowc⟩ := happ.changedRow
    refine ⟨[a, c], hc, .approved hm ⟨?_, ?_⟩ ⟨?_, ?_⟩ happ.pending.alone⟩
    · rw [hrowa]; rfl
    · rw [hrowc]; rfl
    · rw [hrowa]; rfl
    · rw [hrowc]; rfl

omit [Hashlib] in
theorem reject_own {args : MotionArgs} (h : reject config args s = (.ok m, s')) :
    ∃ written, s'.committed = s.committed ++ written ∧
      Call.Own (.reject args) (some m) s.committed written := by
  obtain ⟨hproject, hcase⟩ := reject_ok h
  have hm := projectMotion_motionId hproject
  rcases hcase with ⟨p, r, hrejected, hc⟩ | ⟨actor, p, r, hrej, hc⟩
  · obtain ⟨hr, hk⟩ := byEvent_eq_some hrejected.rejection
    rw [mem_eventsForMotion] at hr
    refine ⟨[], ?_, .rejectedBefore hm hr.1 hr.2 hk⟩
    rw [List.append_nil, hc]
  · obtain ⟨id, at', hrow⟩ := hrej.row
    refine ⟨[r], hc, .rejected hm ?_ ?_ hrej.pending.alone⟩
    · rw [hrow]; rfl
    · rw [hrow]; rfl

theorem demote_own {args : DemoteArgs} (h : demote config args s = (.ok m, s')) :
    ∃ written, s'.committed = s.committed ++ written ∧
      Call.Own (.demote args) (some m) s.committed written := by
  obtain ⟨d, actor, fromPosition, ref, sha, p, a, c, -, hdem, hc⟩ := demote_ok h
  obtain ⟨idp, atp, hp⟩ := hdem.proposedRow
  obtain ⟨ida, ata, ha⟩ := hdem.approvedRow
  obtain ⟨idc, atc, hcr⟩ := hdem.changedRow
  refine ⟨[p, a, c], hc, .demoted ?_ ?_⟩
  · rw [hp, ha, hcr]
    exact ⟨rfl, rfl, rfl⟩
  · rw [hp, ha, hcr]
    exact ⟨rfl, rfl, rfl⟩

omit [Hashlib] in
theorem importEvents_own {events : List (Except PyError EventMapping)} {u : Unit}
    (h : importEvents events s = (.ok u, s')) :
    ∃ written, s'.committed = s.committed ++ written ∧
      Call.Own (.importEvents events) none s.committed written := by
  obtain ⟨-, written, rfl, -, -, hw⟩ := importEvents_ok h
  exact ⟨written, congrArg World.committed hw, .imported written⟩

end

/-- **All-or-nothing writes.** A call that raises leaves the committed table as it was; one that
returns has appended exactly its own rows to it. -/
theorem call_all_or_nothing (config : RuntimeConfig) (call : Call) (s : Session) :
    (∀ e s', call.run config s = (.error e, s') → s'.committed = s.committed) ∧
      ∀ m s', call.run config s = (.ok m, s') → ∃ written,
        s'.committed = s.committed ++ written ∧ call.Own m s.committed written := by
  refine ⟨call.run_raisesClean config s, fun m s' h => ?_⟩
  have hmap : ∀ {α : Type} {x : Py α} {f : α → Option Motion}, (f <$> x) s = (.ok m, s') →
      ∃ a, x s = (.ok a, s') ∧ f a = m := by
    intro α x f h
    rw [map_run] at h
    rcases hr : x s with ⟨e | a, s₁⟩ <;> rw [hr] at h <;> cases h
    exact ⟨a, rfl, rfl⟩
  cases call with
  | propose args =>
    obtain ⟨m', hr, rfl⟩ := hmap h
    exact propose_own hr
  | approve args =>
    obtain ⟨m', hr, rfl⟩ := hmap h
    exact approve_own hr
  | reject args =>
    obtain ⟨m', hr, rfl⟩ := hmap h
    exact reject_own hr
  | demote args =>
    obtain ⟨m', hr, rfl⟩ := hmap h
    exact demote_own hr
  | importEvents events =>
    obtain ⟨_, hr, rfl⟩ := hmap h
    exact importEvents_own hr

end PaaRuntime
