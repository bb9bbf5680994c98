import PaaRuntime.Service

/-!
# What the blocks write

One specification for each block: what a block that returns found in the table it ran on, and which
rows it appended. `Proposes`, `Approves`, `Rejects` and `Demotes` say it of a table, a directory and
a disk; everything proved of histories later starts from them.
-/

namespace PaaRuntime

open Prog

/-! ## Rows of a motion -/

section Rows

variable {t events : Table} {m : String} {k : AutonomyEventType} {e : AutonomyEvent}

theorem mem_eventsForMotion : e ∈ eventsForMotion m t ↔ e ∈ t ∧ e.motionId = m := by
  unfold eventsForMotion
  rw [StampedLog.mem_inOrder, List.mem_filter, decide_eq_true_eq]

theorem byEvent_eq_some (h : byEvent events k = some e) : e ∈ events ∧ e.event = k := by
  have he := List.mem_filter.1 (List.mem_of_getLast? h)
  exact ⟨he.1, of_decide_eq_true he.2⟩

theorem byEvent_eq_none : byEvent events k = none ↔ ∀ e ∈ events, e.event ≠ k := by
  unfold byEvent
  rw [List.getLast?_eq_none_iff, List.filter_eq_nil_iff]
  simp only [decide_eq_true_eq]

theorem projectMotion_ok {motion : Motion} (h : projectMotion events = .ok motion) :
    ∃ p, byEvent events .motionProposed = some p ∧ motion.motionId = p.motionId ∧
      motion.status = motionStatus events := by
  unfold projectMotion at h
  rcases hp : byEvent events .motionProposed with _ | p <;> rw [hp] at h <;> cases h
  exact ⟨p, rfl, rfl, rfl⟩

/-- The rows of a motion project exactly when a proposal is among them. -/
theorem projectMotion_error {err : PyError} (h : projectMotion events = .error err) :
    ∀ e ∈ events, e.event ≠ .motionProposed := by
  unfold projectMotion at h
  rcases hp : byEvent events .motionProposed with _ | p <;> rw [hp] at h <;> cases h
  exact byEvent_eq_none.1 hp

/-- The projection of the rows of a motion is that motion. -/
theorem projectMotion_motionId {motion : Motion}
    (h : projectMotion (eventsForMotion m t) = .ok motion) : motion.motionId = m := by
  obtain ⟨p, hp, hid, -⟩ := projectMotion_ok h
  exact hid.trans (mem_eventsForMotion.1 (byEvent_eq_some hp).1).2

/-- After a proposal of a motion has been found or written, the projection cannot fail. -/
theorem projectMotion_eventsForMotion_ok (he : e ∈ t) (hm : e.motionId = m)
    (hk : e.event = .motionProposed) :
    ∃ motion, projectMotion (eventsForMotion m t) = .ok motion ∧ motion.motionId = m := by
  rcases h : projectMotion (eventsForMotion m t) with err | motion
  · exact absurd hk (projectMotion_error h e (mem_eventsForMotion.2 ⟨he, hm⟩))
  · exact ⟨motion, rfl, projectMotion_motionId h⟩

end Rows

/-! ## Single inserts -/

section Inserts

variable {s s' : Session} {u : Unit}

/-- Recording a row appends it, completed by some id and timestamp. -/
theorem recordEvent_ok {row : String → String → AutonomyEvent}
    (h : recordEvent row s = (.ok u, s')) :
    ∃ rows id createdAt, s.world.working = some rows ∧ Fits rows (row id createdAt) ∧
      s'.world = s.world.setWorking (some (rows ++ [row id createdAt])) := by
  obtain ⟨id, s₁, -, hw₁, h₁⟩ := keeps_world_newEventId.bind_ok h
  obtain ⟨createdAt, s₂, -, hw₂, h₂⟩ := keeps_world_newCreatedAt.bind_ok h₁
  obtain ⟨rows, hrows, -, hfits, hw⟩ := insertRow_ok h₂
  have hs₂ : s₂.world = s.world := hw₂.trans hw₁
  rw [hs₂] at hrows hw
  exact ⟨rows, id, createdAt, hrows, hfits, hw⟩

theorem keeps_outside_recordEvent (row : String → String → AutonomyEvent) :
    Keeps Session.outside (recordEvent row) :=
  (keeps_outside_of_world keeps_world_newEventId).bind fun _ =>
    (keeps_outside_of_world keeps_world_newCreatedAt).bind fun _ =>
      keeps_outside_insertAutonomyEvent _

/-- Rows that fit one after the other. -/
def FitsAll : Table → List AutonomyEvent → Prop
  | _, [] => True
  | t, e :: es => Fits t e ∧ FitsAll (t ++ [e]) es

/-- Recording a row for each kind in turn appends one row for each. -/
theorem forEach_recordEvent_ok {row : AutonomyEventType → String → String → AutonomyEvent} :
    ∀ {kinds : List AutonomyEventType} {s s' : Session} {rows : Table},
      s.world.working = some rows →
      forEach (fun k => recordEvent (row k)) kinds s = (.ok u, s') →
      ∃ written : List AutonomyEvent,
        List.Forall₂ (fun k e => ∃ id createdAt, e = row k id createdAt) kinds written ∧
          FitsAll rows written ∧ s'.world = s.world.setWorking (some (rows ++ written))
  | [], s, s', rows, hrows, h => by
    obtain ⟨-, rfl⟩ := pure_ok.1 h
    refine ⟨[], .nil, trivial, ?_⟩
    rw [List.append_nil, ← hrows]
    rfl
  | k :: kinds, s, s', rows, hrows, h => by
    obtain ⟨_, s₁, h₁, h₂⟩ := bind_ok.1 h
    obtain ⟨rows', id, createdAt, hrows', hfits, hw₁⟩ := recordEvent_ok h₁
    obtain rfl : rows = rows' := Option.some.inj (hrows.symm.trans hrows')
    obtain ⟨written, hforall, hall, hw₂⟩ := forEach_recordEvent_ok (by rw [hw₁]; rfl) h₂
    refine ⟨row k id createdAt :: written, .cons ⟨id, createdAt, rfl⟩ hforall, ⟨hfits, hall⟩, ?_⟩
    rw [hw₂, hw₁, List.append_assoc, List.singleton_append, World.setWorking_setWorking]

theorem getAutonomyEventsForMotion_ok {m : String} {events : Table}
    (h : getAutonomyEventsForMotion m s = (.ok events, s')) :
    events = eventsForMotion m s.world.view ∧ s'.world = s.world := query_ok h

theorem requireSome_ok {α : Type} {o : Option α} {e : PyError} {a : α} :
    requireSome o e = .ok a ↔ o = some a := by cases o <;> simp [requireSome]

end Inserts

/-! ## Propose -/

/-- The current position of a declaration at a scope, as a table has it. -/
def positionIn (t : Table) (d : PaaTaskDeclaration) (scope : Option String) : AutonomyPosition :=
  currentPosition d (latestPositionChanged (d.triple scope) t)

/-- A draft proposes a row over a table. -/
structure Proposes (p : Draft) (t : Table) (e : AutonomyEvent) : Prop where
  row : ∃ id createdAt, e = p.proposal (positionIn t p.declaration p.scope) id createdAt
  declared : p.declaration.Declares e.fromPosition e.toPosition
  fits : Fits t e

variable {s s' : Session}

/-- The load of `propose` checks the scope. -/
theorem proposeLoad_ok {config : RuntimeConfig} {args : ProposeArgs}
    {r : PaaTaskDeclaration × AutonomyPosition} (h : proposeLoad config args s = (.ok r, s')) :
    getPaaDeclaration config s.world.directory args.task = .ok r.1 ∧ r.1.Permits args.scope := by
  obtain ⟨d, s₁, h₁, h₂⟩ := bind_ok.1 h
  obtain ⟨hd, -⟩ := loadDeclaration_ok h₁
  obtain ⟨_, s₂, h₃, h₄⟩ := bind_ok.1 h₂
  obtain ⟨hp, rfl⟩ := liftM_ok.1 h₃
  obtain ⟨toPosition, s₃, h₅, h₆⟩ := bind_ok.1 h₄
  obtain ⟨rfl, rfl⟩ := pure_ok.1 h₆
  exact ⟨hd, validateScope_ok.1 hp⟩

/-- The block of `propose` appends the proposal at the position in force. -/
theorem proposeBlock_ok {p : Draft} {t events : Table} (hs : s.world.working = some t)
    (h : proposeBlock p s = (.ok events, s')) :
    ∃ e, Proposes p t e ∧ events = eventsForMotion p.motionId (t ++ [e]) ∧
      s'.world = s.world.setWorking (some (t ++ [e])) := by
  obtain ⟨r, s₁, h₁, h₂⟩ := bind_ok.1 h
  obtain ⟨-, hw₁, rfl⟩ := foldCurrentPosition_ok h₁
  obtain ⟨_, s₂, h₃, h₄⟩ := bind_ok.1 h₂
  obtain ⟨hdecl, rfl⟩ := liftM_ok.1 h₃
  obtain ⟨_, s₃, h₅, h₆⟩ := bind_ok.1 h₄
  obtain ⟨rows, id, createdAt, hrows, hfits, hw₃⟩ := recordEvent_ok h₅
  obtain ⟨rfl, hw₄⟩ := getAutonomyEventsForMotion_ok h₆
  rw [hw₁] at hrows hw₃
  obtain rfl : t = rows := Option.some.inj (hs.symm.trans hrows)
  rw [World.view_of_working hs] at hdecl hfits hw₃
  refine ⟨_, ⟨⟨id, createdAt, rfl⟩, requireDeclaredTransition_ok.1 hdecl, hfits⟩, ?_,
    hw₄.trans hw₃⟩
  rw [hw₃, World.setWorking_view]
  rfl

/-- What `propose` has done when it returns. -/
theorem proposeLocked_ok {p : Draft} {m : Motion} (h : proposeLocked p s = (.ok m, s')) :
    s.world.working = none ∧ s.world.locked = false ∧ m.motionId = p.motionId ∧
      ∃ e, Proposes p s.world.committed e ∧
        s'.world = s.world.commitAs (s.world.committed ++ [e]) := by
  obtain ⟨events, s₁, h₁, h₂⟩ := bind_ok.1 h
  obtain ⟨hnone, hlock, s₀, s₂, hw₀, hbody, hw₁⟩ := beginImmediate_ok h₁
  obtain ⟨hm, rfl⟩ := liftM_ok.1 h₂
  obtain ⟨e, hpro, rfl, hw₂⟩ := proposeBlock_ok (t := s.world.committed) (by rw [hw₀]; rfl) hbody
  have he : e.motionId = p.motionId ∧ e.event = .motionProposed := by
    obtain ⟨id, createdAt, rfl⟩ := hpro.row
    exact ⟨rfl, rfl⟩
  obtain ⟨m', hm', hid⟩ := projectMotion_eventsForMotion_ok
    (List.mem_append_right s.world.committed (List.mem_singleton_self e)) he.1 he.2
  obtain rfl : m' = m := Except.ok.inj (hm'.symm.trans hm)
  refine ⟨hnone, hlock, hid, e, hpro, ?_⟩
  rw [hw₁, hw₂, hw₀]
  rfl

/-! ## Approve -/

/-- A row found for a motion whose other kinds are absent: the motion is pending. -/
structure Pending (t : Table) (m : String) (proposed : AutonomyEvent) : Prop where
  mem : proposed ∈ t
  motion : proposed.motionId = m
  kind : proposed.event = .motionProposed
  alone : ∀ e ∈ t, e.motionId = m → e.event = .motionProposed

theorem Pending.of_byEvent {t : Table} {m : String} {proposed : AutonomyEvent}
    (hp : byEvent (eventsForMotion m t) .motionProposed = some proposed)
    (hr : byEvent (eventsForMotion m t) .motionRejected = none)
    (ha : byEvent (eventsForMotion m t) .motionApproved = none)
    (hc : byEvent (eventsForMotion m t) .positionChanged = none) : Pending t m proposed := by
  obtain ⟨hmem, hk⟩ := byEvent_eq_some hp
  obtain ⟨ht, hm⟩ := mem_eventsForMotion.1 hmem
  refine ⟨ht, hm, hk, fun e he hem => ?_⟩
  have he' := mem_eventsForMotion.2 ⟨he, hem⟩
  have h₁ := byEvent_eq_none.1 hr e he'
  have h₂ := byEvent_eq_none.1 ha e he'
  have h₃ := byEvent_eq_none.1 hc e he'
  cases hev : e.event <;> simp_all

/-- The rows found for a motion are a proposal, an approval and a change of one identity, and no
rejection. -/
structure Executed (t : Table) (m : String) (proposed approved changed : AutonomyEvent) : Prop where
  proposal : byEvent (eventsForMotion m t) .motionProposed = some proposed
  rejection : byEvent (eventsForMotion m t) .motionRejected = none
  approval : byEvent (eventsForMotion m t) .motionApproved = some approved
  change : byEvent (eventsForMotion m t) .positionChanged = some changed
  identity : approved.identity = proposed.identity ∧ changed.identity = proposed.identity

variable [Hashlib]

/-- What a fresh approval has checked of a proposal. -/
structure Approvable (config : RuntimeConfig) (directory : Directory) (disk : Disk) (t : Table)
    (proposed : AutonomyEvent) : Prop where
  verified : ∃ data, verifyEvidence config.evidenceRoot disk proposed.evidenceRef
    proposed.evidenceSha256 = .ok data
  declared : ∃ d, getPaaDeclaration config directory proposed.task = .ok d ∧
    d.version = proposed.declarationVersion ∧ d.Declares proposed.fromPosition proposed.toPosition
  version : IsInt64 proposed.declarationVersion
  baseline : (positionChangedBefore proposed.triple proposed.stamp t).map (·.id) =
    (latestPositionChanged proposed.triple t).map (·.id)

/-- `approve` approves a pending proposal over a table by two rows. -/
structure Approves (config : RuntimeConfig) (directory : Directory) (disk : Disk)
    (args : MotionArgs) (actor : String) (t : Table) (proposed approved changed : AutonomyEvent) :
    Prop where
  pending : Pending t args.motionId proposed
  checks : Approvable config directory disk t proposed
  approvedRow : ∃ id createdAt,
    approved = approvalRow args.motionId proposed actor args.reason .motionApproved id createdAt
  changedRow : ∃ id createdAt,
    changed = approvalRow args.motionId proposed actor args.reason .positionChanged id createdAt
  fits : FitsAll t [approved, changed]

theorem approveChecks_ok {config : RuntimeConfig} {proposed : AutonomyEvent} {u : Unit}
    (h : approveChecks config proposed s = (.ok u, s')) :
    Approvable config s.world.directory s.world.disk s.world.view proposed ∧
      s'.world = s.world := by
  obtain ⟨_, s₁, -, hw₁, h₁⟩ := keeps_world_tick.bind_ok h
  rw [gets_bind_run] at h₁
  obtain ⟨data, s₂, h₂, h₃⟩ := bind_ok.1 h₁
  obtain ⟨hdata, rfl⟩ := liftM_ok.1 h₂
  obtain ⟨d, s₃, h₄, h₅⟩ := bind_ok.1 h₃
  obtain ⟨hd, hw₃⟩ := loadDeclaration_ok h₄
  obtain ⟨hversion, h₆⟩ := require_bind_ok h₅
  obtain ⟨_, s₄, h₇, h₈⟩ := bind_ok.1 h₆
  obtain ⟨hdecl, rfl⟩ := liftM_ok.1 h₇
  obtain ⟨baseline, s₅, h₉, h₁₀⟩ := bind_ok.1 h₈
  obtain ⟨rfl, hw₅⟩ := getPositionChangedEventBefore_ok h₉
  obtain ⟨latest, s₆, h₁₁, h₁₂⟩ := bind_ok.1 h₁₀
  obtain ⟨hint, rfl, hw₆⟩ := getLatestPositionChangedEvent_ok h₁₁
  obtain ⟨hsame, rfl⟩ := liftM_ok.1 h₁₂
  rw [hw₅, hw₃, hw₁] at hw₆
  rw [hw₅, hw₃, hw₁, require_ok] at hsame
  rw [hw₁] at hdata hd
  exact ⟨⟨⟨data, hdata⟩, ⟨d, hd, hversion, requireDeclaredTransition_ok.1 hdecl⟩, hint, hsame⟩,
    hw₆⟩

theorem approveFresh_ok {config : RuntimeConfig} {args : MotionArgs} {actor : String} {t : Table}
    {proposed : AutonomyEvent} {exit : Exit} (hs : s.world.working = some t)
    (hp : Pending t args.motionId proposed)
    (h : approveFresh config args actor proposed s = (.ok exit, s')) :
    ∃ a c, Approves config s.world.directory s.world.disk args actor t proposed a c ∧
      exit = .fellThrough (eventsForMotion args.motionId (t ++ [a, c])) ∧
      s'.world = s.world.setWorking (some (t ++ [a, c])) := by
  obtain ⟨_, s₁, h₁, h₂⟩ := bind_ok.1 h
  obtain ⟨hchecks, hw₁⟩ := approveChecks_ok h₁
  rw [World.view_of_working hs] at hchecks
  obtain ⟨_, s₂, h₃, h₄⟩ := bind_ok.1 h₂
  obtain ⟨written, hrows, hfits, hw₂⟩ := forEach_recordEvent_ok (by rw [hw₁]; exact hs) h₃
  obtain ⟨events, s₃, h₅, h₆⟩ := bind_ok.1 h₄
  obtain ⟨rfl, hw₃⟩ := getAutonomyEventsForMotion_ok h₅
  obtain ⟨rfl, rfl⟩ := pure_ok.1 h₆
  rcases hrows with _ | ⟨ha, _ | ⟨hc, _ | _⟩⟩
  refine ⟨_, _, ⟨hp, hchecks, ha, hc, hfits⟩, ?_, ?_⟩
  · rw [hw₂, World.setWorking_view]
  · rw [hw₃, hw₂, hw₁]

/-- What the block of `approve` has done when it returns: nothing for a motion already executed, or
a fresh approval. -/
theorem approveBlock_ok {config : RuntimeConfig} {args : MotionArgs} {actor : String} {t : Table}
    {exit : Exit} (hs : s.world.working = some t)
    (h : approveBlock config args actor s = (.ok exit, s')) :
    (∃ m p a c, exit = .returned m ∧
      projectMotion (eventsForMotion args.motionId t) = .ok m ∧
      Executed t args.motionId p a c ∧ s'.world = s.world) ∨
    ∃ p a c, Approves config s.world.directory s.world.disk args actor t p a c ∧
      exit = .fellThrough (eventsForMotion args.motionId (t ++ [a, c])) ∧
      s'.world = s.world.setWorking (some (t ++ [a, c])) := by
  obtain ⟨events, s₁, h₁, h₂⟩ := bind_ok.1 h
  obtain ⟨rfl, hw₁⟩ := getAutonomyEventsForMotion_ok h₁
  rw [World.view_of_working hs] at h₂
  obtain ⟨p, s₂, h₃, h₄⟩ := bind_ok.1 h₂
  obtain ⟨hp, rfl⟩ := liftM_ok.1 h₃
  rw [requireSome_ok] at hp
  rcases hr : byEvent (eventsForMotion args.motionId t) .motionRejected with _ | r <;>
    rcases ha : byEvent (eventsForMotion args.motionId t) .motionApproved with _ | a <;>
    rcases hc : byEvent (eventsForMotion args.motionId t) .positionChanged with _ | c <;>
    simp only [hr, ha, hc] at h₄
  case none.none.none =>
    rw [← hw₁] at hs ⊢
    obtain ⟨a, c, happ, hexit, hw⟩ := approveFresh_ok hs (.of_byEvent hp hr ha hc) h₄
    exact .inr ⟨p, a, c, happ, hexit, hw⟩
  case none.some.some =>
    split_ifs at h₄ with hid
    · obtain ⟨m, s₃, h₅, h₆⟩ := bind_ok.1 h₄
      obtain ⟨hm, rfl⟩ := liftM_ok.1 h₅
      obtain ⟨rfl, rfl⟩ := pure_ok.1 h₆
      simp only [sameIdentity_iff] at hid
      exact .inl ⟨m, p, a, c, rfl, hm, ⟨hp, hr, ha, hc, hid⟩, hw₁⟩
    · exact absurd h₄ throw_ok
  all_goals exact absurd h₄ throw_ok

/-- What `approve` has done when it returns. -/
theorem approveLocked_ok {config : RuntimeConfig} {args : MotionArgs} {actor : String} {m : Motion}
    (h : approveLocked config args actor s = (.ok m, s')) :
    s.world.working = none ∧ s.world.locked = false ∧
      projectMotion (eventsForMotion args.motionId s'.world.committed) = .ok m ∧
      ((∃ p a c, Executed s.world.committed args.motionId p a c ∧ s'.world = s.world) ∨
        ∃ p a c, Approves config s.world.directory s.world.disk args actor s.world.committed p a c ∧
          s'.world = s.world.commitAs (s.world.committed ++ [a, c])) := by
  obtain ⟨exit, s₁, h₁, h₂⟩ := bind_ok.1 h
  obtain ⟨hnone, hlock, s₀, s₂, hw₀, hbody, hw₁⟩ := beginImmediate_ok h₁
  obtain ⟨hm, rfl⟩ := liftM_ok.1 h₂
  rcases approveBlock_ok (t := s.world.committed) (by rw [hw₀]; rfl) hbody with
    ⟨m', p, a, c, rfl, hm', hexec, hw⟩ | ⟨p, a, c, happ, rfl, hw⟩
  · obtain rfl : m' = m := Except.ok.inj hm
    have hsame : s'.world = s.world := by
      rw [hw₁, hw, hw₀, World.setWorking_view, World.setWorking_commitAs]
      unfold World.commitAs
      rw [← hnone]
    exact ⟨hnone, hlock, by rwa [hsame], .inl ⟨p, a, c, hexec, hsame⟩⟩
  · rw [hw₀] at happ hw
    have hgrown : s'.world = s.world.commitAs (s.world.committed ++ [a, c]) := by
      rw [hw₁, hw]
      rfl
    exact ⟨hnone, hlock, by rwa [hgrown], .inr ⟨p, a, c, happ, hgrown⟩⟩

/-! ## Reject -/

/-- `reject` rejects a pending proposal over a table by one row. -/
structure Rejects (args : MotionArgs) (actor : String) (t : Table)
    (proposed rejected : AutonomyEvent) : Prop where
  pending : Pending t args.motionId proposed
  row : ∃ id createdAt,
    rejected = rejectionRow args.motionId proposed actor args.reason id createdAt
  fits : Fits t rejected

/-- The rows found for a motion are a proposal and a rejection of its identity. -/
structure Rejected (t : Table) (m : String) (proposed rejected : AutonomyEvent) : Prop where
  proposal : byEvent (eventsForMotion m t) .motionProposed = some proposed
  rejection : byEvent (eventsForMotion m t) .motionRejected = some rejected
  approval : byEvent (eventsForMotion m t) .motionApproved = none
  change : byEvent (eventsForMotion m t) .positionChanged = none
  identity : rejected.identity = proposed.identity

omit [Hashlib] in
theorem rejectFresh_ok {args : MotionArgs} {actor : String} {t : Table} {proposed : AutonomyEvent}
    {exit : Exit} (hs : s.world.working = some t) (hp : Pending t args.motionId proposed)
    (h : rejectFresh args actor proposed s = (.ok exit, s')) :
    ∃ r, Rejects args actor t proposed r ∧
      exit = .fellThrough (eventsForMotion args.motionId (t ++ [r])) ∧
      s'.world = s.world.setWorking (some (t ++ [r])) := by
  obtain ⟨_, s₁, h₁, h₂⟩ := bind_ok.1 h
  obtain ⟨rows, id, createdAt, hrows, hfits, hw₁⟩ := recordEvent_ok h₁
  obtain rfl : t = rows := Option.some.inj (hs.symm.trans hrows)
  obtain ⟨events, s₂, h₃, h₄⟩ := bind_ok.1 h₂
  obtain ⟨rfl, hw₂⟩ := getAutonomyEventsForMotion_ok h₃
  obtain ⟨rfl, rfl⟩ := pure_ok.1 h₄
  refine ⟨_, ⟨hp, ⟨id, createdAt, rfl⟩, hfits⟩, ?_, hw₂.trans hw₁⟩
  rw [hw₁, World.setWorking_view]

omit [Hashlib] in
/-- What the block of `reject` has done when it returns: nothing for a motion already rejected, or
a fresh rejection. -/
theorem rejectBlock_ok {args : MotionArgs} {actor : String} {t : Table} {exit : Exit}
    (hs : s.world.working = some t) (h : rejectBlock args actor s = (.ok exit, s')) :
    (∃ m p r, exit = .returned m ∧
      projectMotion (eventsForMotion args.motionId t) = .ok m ∧
      Rejected t args.motionId p r ∧ s'.world = s.world) ∨
    ∃ p r, Rejects args actor t p r ∧
      exit = .fellThrough (eventsForMotion args.motionId (t ++ [r])) ∧
      s'.world = s.world.setWorking (some (t ++ [r])) := by
  obtain ⟨events, s₁, h₁, h₂⟩ := bind_ok.1 h
  obtain ⟨rfl, hw₁⟩ := getAutonomyEventsForMotion_ok h₁
  rw [World.view_of_working hs] at h₂
  obtain ⟨p, s₂, h₃, h₄⟩ := bind_ok.1 h₂
  obtain ⟨hp, rfl⟩ := liftM_ok.1 h₃
  rw [requireSome_ok] at hp
  rcases hr : byEvent (eventsForMotion args.motionId t) .motionRejected with _ | r <;>
    rcases ha : byEvent (eventsForMotion args.motionId t) .motionApproved with _ | a <;>
    rcases hc : byEvent (eventsForMotion args.motionId t) .positionChanged with _ | c <;>
    simp only [hr, ha, hc] at h₄
  case none.none.none =>
    rw [← hw₁] at hs ⊢
    obtain ⟨r, hrej, hexit, hw⟩ := rejectFresh_ok hs (.of_byEvent hp hr ha hc) h₄
    exact .inr ⟨p, r, hrej, hexit, hw⟩
  case some.none.none =>
    split_ifs at h₄ with hid
    · obtain ⟨m, s₃, h₅, h₆⟩ := bind_ok.1 h₄
      obtain ⟨hm, rfl⟩ := liftM_ok.1 h₅
      obtain ⟨rfl, rfl⟩ := pure_ok.1 h₆
      exact .inl ⟨m, p, r, rfl, hm, ⟨hp, hr, ha, hc, sameIdentity_iff.1 hid⟩, hw₁⟩
    · exact absurd h₄ throw_ok
  all_goals exact absurd h₄ throw_ok

omit [Hashlib] in
/-- What `reject` has done when it returns. -/
theorem rejectLocked_ok {args : MotionArgs} {actor : String} {m : Motion}
    (h : rejectLocked args actor s = (.ok m, s')) :
    s.world.working = none ∧ s.world.locked = false ∧
      projectMotion (eventsForMotion args.motionId s'.world.committed) = .ok m ∧
      ((∃ p r, Rejected s.world.committed args.motionId p r ∧ s'.world = s.world) ∨
        ∃ p r, Rejects args actor s.world.committed p r ∧
          s'.world = s.world.commitAs (s.world.committed ++ [r])) := by
  obtain ⟨exit, s₁, h₁, h₂⟩ := bind_ok.1 h
  obtain ⟨hnone, hlock, s₀, s₂, hw₀, hbody, hw₁⟩ := beginImmediate_ok h₁
  obtain ⟨hm, rfl⟩ := liftM_ok.1 h₂
  rcases rejectBlock_ok (t := s.world.committed) (by rw [hw₀]; rfl) hbody with
    ⟨m', p, r, rfl, hm', hrejected, hw⟩ | ⟨p, r, hrej, rfl, hw⟩
  · obtain rfl : m' = m := Except.ok.inj hm
    have hsame : s'.world = s.world := by
      rw [hw₁, hw, hw₀, World.setWorking_view, World.setWorking_commitAs]
      unfold World.commitAs
      rw [← hnone]
    exact ⟨hnone, hlock, by rwa [hsame], .inl ⟨p, r, hrejected, hsame⟩⟩
  · rw [hw₀] at hw
    have hgrown : s'.world = s.world.commitAs (s.world.committed ++ [r]) := by
      rw [hw₁, hw]
      rfl
    exact ⟨hnone, hlock, by rwa [hgrown], .inr ⟨p, r, hrej, hgrown⟩⟩

/-! ## Demote -/

omit [Hashlib] in
/-- What the load of `demote` has checked when it returns. -/
theorem demoteLoad_ok {config : RuntimeConfig} {args : DemoteArgs}
    {r : PaaTaskDeclaration × String} (h : demoteLoad config args s = (.ok r, s')) :
    getPaaDeclaration config s.world.directory args.task = .ok r.1 ∧ r.1.Permits args.scope ∧
      s'.world = s.world := by
  obtain ⟨-, h₁⟩ := require_bind_ok h
  obtain ⟨d, s₁, h₂, h₃⟩ := bind_ok.1 h₁
  obtain ⟨hd, hw₁⟩ := loadDeclaration_ok h₂
  obtain ⟨_, s₂, h₄, h₅⟩ := bind_ok.1 h₃
  obtain ⟨hp, rfl⟩ := liftM_ok.1 h₄
  obtain ⟨actor, s₃, -, hw₃, h₆⟩ := (keeps_world_resolveActor _ _).bind_ok h₅
  obtain ⟨rfl, rfl⟩ := pure_ok.1 h₆
  exact ⟨hd, validateScope_ok.1 hp, hw₃.trans hw₁⟩

omit [Hashlib] in
/-- What the head of the block of `demote` has found: the position in force under the declaration
as it stands then is the source of the demotion. -/
theorem demoteResolve_ok {config : RuntimeConfig} {args : DemoteArgs} {d : PaaTaskDeclaration}
    {actor : String} {r : AutonomyPosition × Bytes}
    (h : demoteResolve config args d actor s = (.ok r, s')) :
    s'.world = s.world ∧ r.1 = d.demotion.fromPosition ∧
      (∃ generatedAt, r.2 =
        canonicalDemotionEvidence d args.scope actor args.reason args.sourceRows generatedAt) ∧
      ∃ d', getPaaDeclaration config s.world.directory args.task = .ok d' ∧ d'.Permits args.scope ∧
        r.1 = positionIn s.world.view d' args.scope := by
  obtain ⟨resolved, s₁, h₁, h₂⟩ := bind_ok.1 h
  obtain ⟨hw₁, d', hd', hp', -, rfl⟩ := resolveCurrentPosition_ok h₁
  obtain ⟨hfrom, h₃⟩ := require_bind_ok h₂
  obtain ⟨generatedAt, s₂, -, hw₂, h₄⟩ := keeps_world_newCreatedAt.bind_ok h₃
  obtain ⟨rfl, rfl⟩ := pure_ok.1 h₄
  exact ⟨hw₂.trans hw₁, hfrom, ⟨generatedAt, rfl⟩, d', hd', hp', rfl⟩

/-- `demote` writes the three rows of a motion over a table. -/
structure Demotes (args : DemoteArgs) (d : PaaTaskDeclaration) (actor : String)
    (fromPosition : AutonomyPosition) (ref sha motionId : String) (t : Table)
    (proposed approved changed : AutonomyEvent) : Prop where
  proposedRow : ∃ id createdAt,
    proposed = demotionRow args d actor motionId fromPosition ref sha .motionProposed id createdAt
  approvedRow : ∃ id createdAt,
    approved = demotionRow args d actor motionId fromPosition ref sha .motionApproved id createdAt
  changedRow : ∃ id createdAt,
    changed = demotionRow args d actor motionId fromPosition ref sha .positionChanged id createdAt
  fits : FitsAll t [proposed, approved, changed]

omit [Hashlib] in
/-- The tail of the block of `demote` appends the three rows. -/
theorem demoteRecord_ok {args : DemoteArgs} {d : PaaTaskDeclaration} {actor : String}
    {fromPosition : AutonomyPosition} {ref sha : String} {t events : Table}
    (hs : s.world.working = some t)
    (h : demoteRecord args d actor fromPosition ref sha s = (.ok events, s')) :
    ∃ motionId p a c, Demotes args d actor fromPosition ref sha motionId t p a c ∧
      events = eventsForMotion motionId (t ++ [p, a, c]) ∧
      s'.world = s.world.setWorking (some (t ++ [p, a, c])) := by
  obtain ⟨motionId, s₁, -, hw₁, h₁⟩ := keeps_world_newMotionId.bind_ok h
  obtain ⟨_, s₂, h₂, h₃⟩ := bind_ok.1 h₁
  obtain ⟨written, hrows, hfits, hw₂⟩ := forEach_recordEvent_ok (by rw [hw₁]; exact hs) h₂
  obtain ⟨rfl, hw₃⟩ := getAutonomyEventsForMotion_ok h₃
  rcases hrows with _ | ⟨hp, _ | ⟨ha, _ | ⟨hc, _ | _⟩⟩⟩
  refine ⟨motionId, _, _, _, ⟨hp, ha, hc, hfits⟩, ?_, ?_⟩
  · rw [hw₂, World.setWorking_view]
  · rw [hw₃, hw₂, hw₁]

omit [Hashlib] in
/-- Once the three rows are written, the projection gives their motion. -/
theorem Demotes.motion {args : DemoteArgs} {d : PaaTaskDeclaration} {actor : String}
    {fromPosition : AutonomyPosition} {ref sha motionId : String} {t : Table}
    {p a c : AutonomyEvent} (h : Demotes args d actor fromPosition ref sha motionId t p a c) :
    ∃ m, projectMotion (eventsForMotion motionId (t ++ [p, a, c])) = .ok m ∧
      m.motionId = motionId := by
  obtain ⟨id, createdAt, rfl⟩ := h.proposedRow
  exact projectMotion_eventsForMotion_ok (List.mem_append_right t List.mem_cons_self) rfl rfl

end PaaRuntime
