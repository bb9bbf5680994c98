import PaaRuntime.ClientSpec
import PaaRuntime.MotionRules

/-!
# What calls raise

`Sound x`: no exception of `x` is a `PaaCorruptHistoryError`. Everything outside the blocks of
`approve` and `reject` is sound by its shape; these two are sound over a table in which every motion
has one of the three histories that the service writes.
-/

namespace PaaRuntime

open Prog

/-- The exception does not report a corrupt history. -/
abbrev NotCorrupt (e : PyError) : Prop := e.cls ≠ .paaCorruptHistoryError

theorem notCorrupt_of_isFault {e : PyError} (h : e.cls.IsFault) : NotCorrupt e := by
  intro he
  rw [he] at h
  exact h

/-- No exception of the program reports a corrupt history. -/
abbrev Sound {α : Type} (x : Py α) : Prop := RaisesOnly NotCorrupt x

/-! ## Sound parts -/

section

variable {α : Type}

theorem sound_tick : Sound tick := by
  intro s e s' h
  rcases tick_cases s with ⟨s₁, ht, -⟩ | ⟨f, s₁, ht, -⟩ <;> rw [ht] at h <;> cases h
  exact notCorrupt_of_isFault f.toError_isFault

theorem sound_draw (get : Io → Stream' α) (set : Stream' α → Io → Io) : Sound (draw get set) := by
  intro s e s' h
  cases h

theorem sound_newCreatedAt : Sound newCreatedAt := sound_tick.bind fun _ => sound_draw _ _

theorem sound_newEventId : Sound newEventId := sound_tick.bind fun _ => sound_draw _ _

theorem sound_newMotionId : Sound newMotionId := sound_tick.bind fun _ => sound_draw _ _

/-- A check whose exception does not report a corrupt history. -/
theorem sound_require {p : Prop} [Decidable p] {e : PyError} (h : NotCorrupt e) :
    Sound (liftM (require p e)) := by
  refine RaisesOnly.lift fun e' he => ?_
  obtain ⟨-, rfl⟩ := require_error.1 he
  exact h

theorem sound_requireSome {o : Option α} {e : PyError} (h : NotCorrupt e) :
    Sound (liftM (requireSome o e)) := by
  refine RaisesOnly.lift fun e' he => ?_
  cases o <;> cases he
  exact h

theorem sound_loadDeclaration (config : RuntimeConfig) (task : String) :
    Sound (loadDeclaration config task) := by
  refine sound_tick.bind fun _ => (RaisesOnly.gets _).bind fun _ => RaisesOnly.lift fun e he => ?_
  simp [getPaaDeclaration_error he]

theorem sound_readEvidenceFile (path : String) : Sound (readEvidenceFile path) := by
  refine sound_tick.bind fun _ => (RaisesOnly.gets _).bind fun data => ?_
  cases data with
  | none => exact RaisesOnly.throw (by simp)
  | some data => exact RaisesOnly.pure _

theorem sound_resolveActor (explicit : Option String) (envVar : String) :
    Sound (resolveActor explicit envVar) := by
  refine sound_tick.bind fun _ => (RaisesOnly.gets _).bind fun io => ?_
  split
  · exact RaisesOnly.pure _
  · split
    · exact RaisesOnly.pure _
    · split
      · exact RaisesOnly.pure _
      · next e he =>
        split_ifs
        · exact RaisesOnly.throw (by simp)
        · refine RaisesOnly.throw ?_
          rcases io.login_error e he with hf | hk
          · exact notCorrupt_of_isFault hf
          · simp [hk]

theorem sound_validateScope (d : PaaTaskDeclaration) (scope : Option String) :
    Sound (liftM (validateScope d scope)) := by
  unfold validateScope
  split <;> exact sound_require (by simp)

theorem sound_requireDeclaredTransition (d : PaaTaskDeclaration) (p q : AutonomyPosition) :
    Sound (liftM (requireDeclaredTransition d p q)) :=
  sound_require (by simp)

theorem sound_bindInteger (i : Option Int) : Sound (liftM (bindInteger i)) :=
  sound_require (by simp)

theorem sound_query (f : Table → α) : Sound (query f) := sound_tick.bind fun _ => RaisesOnly.gets _

theorem sound_getLatestPositionChangedEvent (t : Triple) :
    Sound (getLatestPositionChangedEvent t) := (sound_bindInteger _).bind fun _ => sound_query _

theorem sound_getPositionChangedEventBefore (t : Triple) (createdAt eventId : String) :
    Sound (getPositionChangedEventBefore t createdAt eventId) :=
  (sound_bindInteger _).bind fun _ => sound_query _

theorem sound_foldCurrentPosition (d : PaaTaskDeclaration) (scope : Option String) :
    Sound (foldCurrentPosition d scope) :=
  (sound_getLatestPositionChangedEvent _).bind fun _ => RaisesOnly.pure _

theorem sound_resolveCurrentPosition (config : RuntimeConfig) (task : String)
    (scope : Option String) : Sound (resolveCurrentPosition config task scope) :=
  (sound_loadDeclaration _ _).bind fun _ => (sound_validateScope _ _).bind fun _ =>
    (sound_foldCurrentPosition _ _).bind fun _ => RaisesOnly.pure _

theorem sound_insertAutonomyEvent (e : AutonomyEvent) : Sound (insertAutonomyEvent e.columns) := by
  refine (RaisesOnly.gets _).bind fun rows => ?_
  split
  · exact RaisesOnly.throw (by simp)
  · next rows =>
    refine (sound_bindInteger _).bind fun _ => sound_tick.bind fun _ =>
      (RaisesOnly.gets _).bind fun locked =>
        (sound_require (by simp)).bind fun _ => ?_
    split
    · next err he =>
      refine RaisesOnly.throw ?_
      have hrow : autonomyEvents.asRow e.columns = .ok e := asRow_ok.2 rfl
      unfold GuardedTable.insertRow at he
      rw [hrow] at he
      split at he
      · next h => cases h
      · split at he <;> cases he
        simp [sqlError]
    · exact RaisesOnly.modify _

theorem sound_recordEvent (row : String → String → AutonomyEvent) : Sound (recordEvent row) :=
  sound_newEventId.bind fun _ => sound_newCreatedAt.bind fun _ => sound_insertAutonomyEvent _

/-! ## Sound contexts -/

theorem sound_begin (immediate : Bool) : Sound (begin_ immediate) :=
  sound_tick.bind fun _ => (RaisesOnly.gets _).bind fun _ =>
    (sound_require (by simp)).bind fun _ =>
      (sound_require (by simp)).bind fun _ => RaisesOnly.modify _

theorem sound_rollback : Sound rollback := sound_tick.bind fun _ => RaisesOnly.modify _

theorem sound_commit : Sound commit := by
  refine sound_tick.bind fun _ => (sound_draw _ _).bind fun outcome => ?_
  split
  · exact RaisesOnly.modify _
  · exact RaisesOnly.throw (by simp)
  · exact (RaisesOnly.modify _).bind fun _ => RaisesOnly.throw (by simp)

theorem sound_rollbackOnError {body : Py α} (h : Sound body) : Sound (rollbackOnError body) :=
  RaisesOnly.tryCatch h fun _ he => sound_rollback.bind fun _ => RaisesOnly.throw he

theorem sound_closing {body : Py α} (h : Sound body) : Sound (closing body) :=
  (sound_rollbackOnError h).bind fun _ => sound_commit.bind fun _ => RaisesOnly.pure _

theorem sound_beginImmediate {body : Py α} (h : Sound body) : Sound (beginImmediate body) :=
  (sound_begin true).bind fun _ => sound_closing h

/-- A block reports a corrupt history only if its body does, on the committed table. -/
theorem beginImmediate_raises {body : Py α} {s s' : Session} {e : PyError}
    (h : beginImmediate body s = (.error e, s')) :
    NotCorrupt e ∨ ∃ s₀ s₁, s₀.world = s.world.setWorking (some s.world.committed) ∧
      body s₀ = (.error e, s₁) := by
  rcases bind_error.1 h with h | ⟨_, s₀, h₀, h₁⟩
  · exact .inl (sound_begin true s e s' h)
  · obtain ⟨-, -, hw⟩ := begin_ok h₀
    rcases bind_error.1 h₁ with h₁ | ⟨a, s₁, -, h₂⟩
    · unfold rollbackOnError at h₁
      rw [tryCatch_run] at h₁
      rcases hb : body s₀ with ⟨e₁ | a, s₁⟩ <;> rw [hb] at h₁
      · rcases bind_error.1 h₁ with h₂ | ⟨_, s₂, -, h₂⟩
        · exact .inl (sound_rollback _ _ _ h₂)
        · cases h₂
          exact .inr ⟨s₀, s₁, hw, hb⟩
      · cases h₁
    · rcases bind_error.1 h₂ with h₂ | ⟨_, s₂, -, h₂⟩
      · exact .inl (sound_commit _ _ _ h₂)
      · cases h₂

end

/-! ## Calls -/

theorem sound_proposeLoad (config : RuntimeConfig) (args : ProposeArgs) :
    Sound (proposeLoad config args) :=
  (sound_loadDeclaration _ _).bind fun _ => (sound_validateScope _ _).bind fun _ =>
    (sound_requireSome (by simp)).bind fun _ => RaisesOnly.pure _

theorem sound_proposeCheck (d : PaaTaskDeclaration) (scope : Option String)
    (toPosition : AutonomyPosition) : Sound (proposeCheck d scope toPosition) :=
  (sound_foldCurrentPosition _ _).bind fun _ => sound_requireDeclaredTransition _ _ _

theorem sound_proposeRead (path : String) : Sound (proposeRead path) :=
  (sound_readEvidenceFile _).bind fun _ => (sound_require (by simp)).bind fun _ => RaisesOnly.pure _

theorem sound_proposeActor (config : RuntimeConfig) (actor : Option String) :
    Sound (proposeActor config actor) :=
  (sound_resolveActor _ _).bind fun _ => sound_newMotionId.bind fun _ => RaisesOnly.pure _

theorem sound_proposeLocked (p : Draft) : Sound (proposeLocked p) := by
  refine .bind_last (sound_beginImmediate ?_) fun _ _ _ _ _ h =>
    liftM_ne_error (proposeBlock_projects h)
  exact (sound_foldCurrentPosition _ _).bind fun _ =>
    (sound_requireDeclaredTransition _ _ _).bind fun _ =>
      (sound_recordEvent _).bind fun _ => sound_query _

theorem sound_reasonedActor (config : RuntimeConfig) (purpose reason : String)
    (actor : Option String) : Sound (reasonedActor config purpose reason actor) :=
  (sound_require (by simp)).bind fun _ => sound_resolveActor _ _

theorem sound_demoteLoad (config : RuntimeConfig) (args : DemoteArgs) :
    Sound (demoteLoad config args) :=
  (sound_require (by simp)).bind fun _ => (sound_loadDeclaration _ _).bind fun _ =>
    (sound_validateScope _ _).bind fun _ => (sound_resolveActor _ _).bind fun _ => RaisesOnly.pure _

theorem sound_demoteOpen (config : RuntimeConfig) (args : DemoteArgs) (d : PaaTaskDeclaration)
    (actor : String) : Sound (demoteOpen config args d actor) := by
  refine (sound_begin true).bind fun _ => sound_rollbackOnError ?_
  exact (sound_resolveCurrentPosition _ _ _).bind fun _ => (sound_require (by simp)).bind fun _ =>
    sound_newCreatedAt.bind fun _ => RaisesOnly.pure _

theorem sound_demoteClose (args : DemoteArgs) (d : PaaTaskDeclaration) (actor : String)
    (fromPosition : AutonomyPosition) (ref sha : String) :
    Sound (demoteClose args d actor fromPosition ref sha) := by
  refine .bind_last (sound_closing ?_) fun _ _ _ _ _ h => liftM_ne_error (demoteClose_projects h)
  exact sound_newMotionId.bind fun _ =>
    (RaisesOnly.forEach (fun _ => sound_recordEvent _) _).bind fun _ => sound_query _

/-! ## The blocks that look for a corrupt history -/

section

variable {t : Table} {m : String} {args : MotionArgs} {actor : String} {s s' : Session} {e : PyError}

/-- What the kinds found for a motion that follows the rules can be. -/
theorem Follows.found {p : AutonomyEvent} (h : Follows t)
    (hp : byEvent (eventsForMotion m t) .motionProposed = some p) :
    ∃ rows, MotionHistory p rows ∧ ∀ e, e ∈ eventsForMotion m t ↔ e ∈ rows := by
  obtain ⟨hmem, hk⟩ := byEvent_eq_some hp
  obtain ⟨ht, rfl⟩ := mem_eventsForMotion.1 hmem
  obtain ⟨q, hq⟩ := h p ht
  obtain rfl := hq.eq_of_proposed (mem_motionRows.2 ⟨ht, rfl⟩) hk
  exact ⟨_, hq, fun e => mem_eventsForMotion_iff⟩

/-- `reject` finds no corrupt history where motions follow the rules. -/
theorem rejectBlock_notCorrupt (ht : Follows t) (hs : s.world.working = some t)
    (h : rejectBlock args actor s = (.error e, s')) : NotCorrupt e := by
  rcases bind_error.1 h with h | ⟨events, s₁, h₁, h₂⟩
  · exact sound_query _ _ _ _ h
  · obtain ⟨rfl, hw₁⟩ := getAutonomyEventsForMotion_ok h₁
    rw [World.view_of_working hs] at h₂
    rcases bind_error.1 h₂ with h₂ | ⟨p, s₂, h₃, h₄⟩
    · exact sound_requireSome (by simp) _ _ _ h₂
    · obtain ⟨hp, rfl⟩ := liftM_ok.1 h₃
      rw [requireSome_ok] at hp
      obtain ⟨rows, hhist, hrows⟩ := ht.found hp
      rcases hr : byEvent (eventsForMotion args.motionId t) .motionRejected with _ | r <;>
        rcases ha : byEvent (eventsForMotion args.motionId t) .motionApproved with _ | a <;>
        rcases hc : byEvent (eventsForMotion args.motionId t) .positionChanged with _ | c <;>
        simp only [hr, ha, hc] at h₄
      case none.none.none =>
        refine ((sound_recordEvent _).bind fun _ => (sound_query _).bind fun _ =>
          RaisesOnly.pure _ : Sound (rejectFresh args actor p)) _ _ _ h₄
      case some.none.none =>
        have hid := hhist.identity ((hrows r).1 (byEvent_eq_some hr).1)
        obtain ⟨motion, hm⟩ := hhist.projects hrows
        rw [if_pos (sameIdentity_iff.2 hid), hm] at h₄
        cases h₄
      case none.none.some | none.some.none | none.some.some =>
        cases h₄
        simp
      case some.none.some =>
        obtain ⟨hr, hrk⟩ := byEvent_eq_some hr
        obtain ⟨hc, hck⟩ := byEvent_eq_some hc
        exact absurd hck (hhist.not_both ((hrows r).1 hr) hrk ((hrows c).1 hc)).2
      all_goals
        obtain ⟨hr, hrk⟩ := byEvent_eq_some hr
        obtain ⟨ha, hak⟩ := byEvent_eq_some ha
        exact absurd hak (hhist.not_both ((hrows r).1 hr) hrk ((hrows a).1 ha)).1

theorem rejectLocked_notCorrupt (ht : Follows s.world.committed)
    (h : rejectLocked args actor s = (.error e, s')) : NotCorrupt e := by
  rcases bind_error.1 h with h | ⟨exit, s₁, h₁, h₂⟩
  · rcases beginImmediate_raises h with he | ⟨s₀, s₁, hw, hbody⟩
    · exact he
    · exact rejectBlock_notCorrupt ht (by rw [hw]; rfl) hbody
  · exact absurd h₂ (liftM_ne_error (rejectBlock_projects h₁))

variable [Hashlib]

theorem sound_approveFresh (config : RuntimeConfig) (args : MotionArgs) (actor : String)
    (proposed : AutonomyEvent) : Sound (approveFresh config args actor proposed) := by
  have hchecks : Sound (approveChecks config proposed) := by
    refine sound_tick.bind fun _ => (RaisesOnly.gets _).bind fun disk => ?_
    refine (RaisesOnly.lift fun e he => ?_).bind fun _ => (sound_loadDeclaration _ _).bind fun _ =>
      (sound_require (by simp)).bind fun _ => (sound_requireDeclaredTransition _ _ _).bind fun _ =>
        (sound_getPositionChangedEventBefore _ _ _).bind fun _ =>
          (sound_getLatestPositionChangedEvent _).bind fun _ => sound_require (by simp)
    simp [verifyEvidence_error he]
  exact hchecks.bind fun _ => (RaisesOnly.forEach (fun _ => sound_recordEvent _) _).bind fun _ =>
    (sound_query _).bind fun _ => RaisesOnly.pure _

/-- `approve` finds no corrupt history where motions follow the rules. -/
theorem approveBlock_notCorrupt {config : RuntimeConfig} (ht : Follows t)
    (hs : s.world.working = some t) (h : approveBlock config args actor s = (.error e, s')) :
    NotCorrupt e := by
  rcases bind_error.1 h with h | ⟨events, s₁, h₁, h₂⟩
  · exact sound_query _ _ _ _ h
  · obtain ⟨rfl, hw₁⟩ := getAutonomyEventsForMotion_ok h₁
    rw [World.view_of_working hs] at h₂
    rcases bind_error.1 h₂ with h₂ | ⟨p, s₂, h₃, h₄⟩
    · exact sound_requireSome (by simp) _ _ _ h₂
    · obtain ⟨hp, rfl⟩ := liftM_ok.1 h₃
      rw [requireSome_ok] at hp
      obtain ⟨rows, hhist, hrows⟩ := ht.found hp
      have hboth := hhist.approved_iff
      simp only [← hrows, ← byEvent_isSome] at hboth
      rcases hr : byEvent (eventsForMotion args.motionId t) .motionRejected with _ | r <;>
        rcases ha : byEvent (eventsForMotion args.motionId t) .motionApproved with _ | a <;>
        rcases hc : byEvent (eventsForMotion args.motionId t) .positionChanged with _ | c <;>
        simp only [hr, ha, hc] at h₄ hboth
      case none.none.none => exact sound_approveFresh _ _ _ _ _ _ _ h₄
      case none.some.some =>
        have hai := hhist.identity ((hrows a).1 (byEvent_eq_some ha).1)
        have hci := hhist.identity ((hrows c).1 (byEvent_eq_some hc).1)
        obtain ⟨motion, hm⟩ := hhist.projects hrows
        rw [if_pos ⟨sameIdentity_iff.2 hai, sameIdentity_iff.2 hci⟩, hm] at h₄
        cases h₄
      case some.none.none =>
        cases h₄
        simp
      case some.some.some =>
        obtain ⟨hr, hrk⟩ := byEvent_eq_some hr
        obtain ⟨ha, hak⟩ := byEvent_eq_some ha
        exact absurd hak (hhist.not_both ((hrows r).1 hr) hrk ((hrows a).1 ha)).1
      all_goals simp at hboth

theorem approveLocked_notCorrupt {config : RuntimeConfig} (ht : Follows s.world.committed)
    (h : approveLocked config args actor s = (.error e, s')) : NotCorrupt e := by
  rcases bind_error.1 h with h | ⟨exit, s₁, h₁, h₂⟩
  · rcases beginImmediate_raises h with he | ⟨s₀, s₁, hw, hbody⟩
    · exact he
    · exact approveBlock_notCorrupt ht (by rw [hw]; rfl) hbody
  · exact absurd h₂ (liftM_ne_error (approveBlock_projects h₁))

end

/-! ## Listing -/

section

variable {t : Table} {s s' : Session} {status task : Option String}

/-- Every group of the listing of a table that follows the rules is a whole motion's. -/
theorem Follows.grouped (h : Follows t) {g : String × Table} (hg : g ∈ grouped (allEvents task t)) :
    ∃ p, MotionHistory p (motionRows g.1 t) ∧ ∀ e, e ∈ g.2 ↔ e ∈ motionRows g.1 t := by
  obtain ⟨m, hm, rfl⟩ := List.mem_map.1 hg
  obtain ⟨e, he, rfl⟩ := List.mem_map.1 (List.mem_eraseDups.1 hm)
  have hall : ∀ e, e ∈ allEvents task t ↔ e ∈ t ∧ ∀ k ∈ task, e.task = k := by
    intro e
    rw [allEvents, StampedLog.mem_inOrder, List.mem_filter, decide_eq_true_eq]
  obtain ⟨het, htask⟩ := (hall e).1 he
  obtain ⟨p, hp⟩ := h e het
  refine ⟨p, hp, fun r => ?_⟩
  rw [List.mem_filter, decide_eq_true_eq, hall, mem_motionRows]
  refine ⟨fun hr => ⟨hr.1.1, hr.2⟩, fun hr => ⟨⟨hr.1, ?_⟩, hr.2⟩⟩
  -- the rows of a motion have one task
  have hid : r.identity = e.identity :=
    (hp.identity (mem_motionRows.2 hr)).trans (hp.identity (mem_motionRows.2 ⟨het, rfl⟩)).symm
  intro k hk
  rw [← htask k hk]
  exact congrArg Identity.task hid

/-- Listing a table that follows the rules finds no corrupt history, and no motion approved only. -/
theorem listMotions_follows {r : Except PyError (List Motion)} (ht : Follows s.world.view)
    (h : listMotions status task s = (r, s')) :
    (∀ e, r = .error e → NotCorrupt e) ∧ ∀ ms, r = .ok ms → ∀ m ∈ ms, m.status ≠ .approved := by
  have hcorrupt : ∀ events, events = allEvents task s.world.view →
      ((grouped events).filter fun g => (projectMotion g.2).toOption.isNone).map (·.1) = [] := by
    rintro _ rfl
    rw [List.map_eq_nil_iff, List.filter_eq_nil_iff]
    intro g hg
    obtain ⟨p, hp, hmem⟩ := ht.grouped hg
    obtain ⟨m, hm⟩ := hp.projects hmem
    simp [hm, Except.toOption]
  constructor
  · rintro e rfl
    rcases bind_error.1 h with h | ⟨_, s₁, h₁, h₂⟩
    · exact sound_require (by simp) _ _ _ h
    · obtain ⟨-, rfl⟩ := liftM_ok.1 h₁
      rcases bind_error.1 h₂ with h₂ | ⟨events, s₂, h₃, h₄⟩
      · exact sound_query _ _ _ _ h₂
      · obtain ⟨hevents, -⟩ := query_ok h₃
        rcases bind_error.1 h₄ with h₄ | ⟨_, s₃, -, h₅⟩
        · obtain ⟨hne, -⟩ := require_error.1 (Prod.mk.inj h₄).1
          exact absurd (hcorrupt events hevents) hne
        · cases h₅
  · rintro ms rfl m hm
    obtain ⟨_, s₁, h₁, h₂⟩ := bind_ok.1 h
    obtain ⟨-, rfl⟩ := liftM_ok.1 h₁
    obtain ⟨events, s₂, h₃, h₄⟩ := bind_ok.1 h₂
    obtain ⟨rfl, -⟩ := query_ok h₃
    obtain ⟨_, s₃, -, h₅⟩ := bind_ok.1 h₄
    obtain ⟨rfl, -⟩ := pure_ok.1 h₅
    rw [sortedMotions, List.mem_insertionSort, List.mem_filter] at hm
    obtain ⟨g, hg, hproject⟩ := List.mem_filterMap.1 hm.1
    obtain ⟨p, hp, hmem⟩ := ht.grouped hg
    rcases hpm : projectMotion g.2 with e | m' <;> rw [hpm] at hproject <;> cases hproject
    obtain ⟨-, -, -, hstatus⟩ := projectMotion_ok hpm
    rw [hstatus]
    exact hp.status_ne_approved hmem

end

end PaaRuntime
