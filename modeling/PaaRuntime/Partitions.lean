import PaaRuntime.Histories
import PaaRuntime.Lib.SqlNull

/-!
# Partitions of authority

Rows are read by the exact triple of task, declaration version and scope: the `WHERE` clauses of the
two position queries, with null as a scope of its own, keep the rows of one triple and no others. An
operation on one triple leaves every other as it is (`partitions_isolated`).
-/

namespace PaaRuntime

open Prog

/-! ## The two queries -/

section Queries

variable {Y : Triple} {e : AutonomyEvent} {t : Table}

/-- `task = ? AND declaration_version = ? AND scope IS ? AND event = 'position_changed'`. -/
def latestWhere (Y : Triple) (e : AutonomyEvent) : SqlNull.Truth :=
  SqlNull.and (SqlNull.and (SqlNull.and (SqlNull.eq (some e.task) (some Y.task))
    (SqlNull.eq (some e.declarationVersion) (some Y.declarationVersion)))
    (SqlNull.is e.scope Y.scope)) (SqlNull.eq (some e.event.text) (some "position_changed"))

/-- The same, and `(created_at < ? OR (created_at = ? AND id < ?))`. -/
def beforeWhere (Y : Triple) (createdAt eventId : String) (e : AutonomyEvent) : SqlNull.Truth :=
  SqlNull.and (latestWhere Y e) (SqlNull.or (SqlNull.lt (some e.createdAt) (some createdAt))
    (SqlNull.and (SqlNull.eq (some e.createdAt) (some createdAt))
      (SqlNull.lt (some e.id) (some eventId))))

theorem event_text_iff : e.event.text = "position_changed" ↔ e.event = .positionChanged := by
  cases e.event <;> decide

/-- The clause keeps the position changes of the triple, null scope for null scope. -/
theorem keeps_latestWhere :
    SqlNull.keeps (latestWhere Y e) = decide (e.triple = Y ∧ e.event = .positionChanged) := by
  obtain ⟨task, version, scope⟩ := Y
  simp only [latestWhere, SqlNull.keeps_and, SqlNull.keeps_eq, SqlNull.keeps_is, event_text_iff,
    AutonomyEvent.triple, Triple.mk.injEq, Bool.decide_and, Bool.and_assoc]

theorem keeps_beforeWhere {createdAt eventId : String} :
    SqlNull.keeps (beforeWhere Y createdAt eventId e) =
      (decide (e.triple = Y ∧ e.event = .positionChanged) &&
        decide (e.stamp < toLex (createdAt, eventId))) := by
  rw [beforeWhere, SqlNull.keeps_and, keeps_latestWhere]
  congr 1
  rw [Bool.eq_iff_iff]
  simp [AutonomyEvent.stamp, Prod.Lex.toLex_lt_toLex]

/-- `get_latest_position_changed_event` reads the rows that its clause keeps. -/
theorem latestPositionChanged_eq_query (Y : Triple) (t : Table) :
    latestPositionChanged Y t =
      StampedLog.latest AutonomyEvent.stamp (t.filter fun e => SqlNull.keeps (latestWhere Y e)) := by
  simp only [keeps_latestWhere]
  rfl

/-- `get_position_changed_event_before` reads the rows that its clause keeps. -/
theorem positionChangedBefore_eq_query (Y : Triple) (createdAt eventId : String) (t : Table) :
    positionChangedBefore Y (toLex (createdAt, eventId)) t =
      StampedLog.latest AutonomyEvent.stamp
        (t.filter fun e => SqlNull.keeps (beforeWhere Y createdAt eventId e)) := by
  simp only [keeps_beforeWhere]
  unfold positionChangedBefore StampedLog.before positionChanges
  rw [List.filter_filter]
  congr 1
  apply List.filter_congr
  intro e _
  rw [Bool.and_comm]

end Queries

/-! ## Rows of another triple -/

section Untouched

variable {Y : Triple} {t t' written : Table} {p : AutonomyEvent}

/-- A motion is on a triple where its proposal carries it. -/
def MotionOn (Y : Triple) (t : Table) (m : String) : Prop :=
  ∃ p ∈ t, p.motionId = m ∧ p.event = .motionProposed ∧ p.triple = Y

/-- Rows beside a triple: none carries it, nor the id of a motion on it. -/
def Beside (Y : Triple) (t written : Table) : Prop :=
  ∀ e ∈ written, e.triple ≠ Y ∧ ¬ MotionOn Y t e.motionId

/-- The verdict of `approve` that a change has come in between a proposal and now. -/
def Stale (t : Table) (p : AutonomyEvent) : Prop :=
  (positionChangedBefore p.triple p.stamp t).map (·.id) ≠
    (latestPositionChanged p.triple t).map (·.id)

/-- What a table says of a triple is what another one does: its rows, its position changes, the rows
of the motions on it, and which of its proposals are stale. -/
structure Untouched (Y : Triple) (t t' : Table) : Prop where
  rows : t'.filter (·.triple = Y) = t.filter (·.triple = Y)
  changes : positionChanges Y t' = positionChanges Y t
  motions : ∀ m, MotionOn Y t m → eventsForMotion m t' = eventsForMotion m t
  stale : ∀ p, p.triple = Y → (Stale t' p ↔ Stale t p)

theorem Untouched.refl (Y : Triple) (t : Table) : Untouched Y t t :=
  ⟨rfl, rfl, fun _ _ => rfl, fun _ _ => Iff.rfl⟩

theorem filter_append_of_none {q : AutonomyEvent → Bool} (h : ∀ e ∈ written, q e = false) :
    (t ++ written).filter q = t.filter q := by
  have hnil : written.filter q = [] := List.filter_eq_nil_iff.2 fun e he => by simp [h e he]
  rw [List.filter_append, hnil, List.append_nil]

/-- Rows beside a triple leave it untouched. -/
theorem untouched_append (h : Beside Y t written) : Untouched Y t (t ++ written) := by
  have hchanges : positionChanges Y (t ++ written) = positionChanges Y t := by
    apply filter_append_of_none
    intro e he
    exact decide_eq_false fun hc => (h e he).1 hc.1
  refine ⟨?_, hchanges, fun m hm => ?_, fun p hp => ?_⟩
  · apply filter_append_of_none
    intro e he
    exact decide_eq_false (h e he).1
  · unfold eventsForMotion
    rw [filter_append_of_none fun e he => ?_]
    exact decide_eq_false fun hem => (h e he).2 (hem ▸ hm)
  · unfold Stale positionChangedBefore latestPositionChanged
    rw [hp, hchanges]

end Untouched

/-! ## Resolving -/

/-- The same surroundings, and the same changes of a triple in view. -/
def SameChanges (Y : Triple) (s s' : Session) : Prop :=
  s.io = s'.io ∧ positionChanges Y s.world.view = positionChanges Y s'.world.view

theorem respects_tick (Y : Triple) : Respects (SameChanges Y) tick := by
  rintro s s' ⟨hio, hview⟩
  rcases hf : s.io.faults.head with _ | f
  · rw [tick_of_quiet hf, tick_of_quiet (hio ▸ hf)]
    exact ⟨rfl, by simp only [hio], hview⟩
  · rw [tick_of_fault hf, tick_of_fault (hio ▸ hf)]
    exact ⟨rfl, by simp only [hio], hview⟩

theorem respects_getLatestPositionChangedEvent (Y : Triple) :
    Respects (SameChanges Y) (getLatestPositionChangedEvent Y) := by
  refine (Respects.lift _).bind fun _ => (respects_tick Y).bind fun _ => Respects.gets ?_
  rintro s s' ⟨-, hview⟩
  unfold latestPositionChanged
  rw [hview]

/-- A position is resolved alike over tables with the same changes of its triple. -/
theorem resolve_of_changes {Y : Triple} {t t' : Table} (h : positionChanges Y t' = positionChanges Y t)
    {config : RuntimeConfig} {w : World} (hversion : ∀ d,
      getPaaDeclaration config w.directory Y.task = .ok d → d.version = Y.declarationVersion)
    (hclosed : w.working = none) (io : Io) :
    (resolveCurrentPosition config Y.task Y.scope ⟨{ w with committed := t' }, io⟩).1 =
      (resolveCurrentPosition config Y.task Y.scope ⟨{ w with committed := t }, io⟩).1 := by
  unfold resolveCurrentPosition
  rw [bind_run, bind_run]
  rcases hf : io.faults.head with _ | f
  · rw [loadDeclaration_of_quiet hf, loadDeclaration_of_quiet hf]
    dsimp only
    rcases hd : getPaaDeclaration config w.directory Y.task with e | d
    · rfl
    · have hY : d.triple Y.scope = Y := by
        rw [PaaTaskDeclaration.triple, (getPaaDeclaration_ok hd).1, hversion d hd]
      have hrest : Respects (SameChanges Y) (do
          validateScope d Y.scope
          let r ← foldCurrentPosition d Y.scope
          return resolvedPosition d Y.scope r.2 : Py ResolvedPosition) := by
        refine (Respects.lift _).bind fun _ => Respects.bind ?_ fun _ => Respects.pure _
        unfold foldCurrentPosition
        rw [hY]
        exact (respects_getLatestPositionChangedEvent Y).bind fun _ => Respects.pure _
      have hsame : ∀ io', SameChanges Y ⟨{ w with committed := t' }, io'⟩
          ⟨{ w with committed := t }, io'⟩ := by
        intro io'
        refine ⟨rfl, ?_⟩
        rw [World.view_of_closed (by exact hclosed), World.view_of_closed (by exact hclosed)]
        exact h
      exact (hrest _ _ (hsame _)).1
  · rw [loadDeclaration_of_fault hf, loadDeclaration_of_fault hf]

/-! ## Operations -/

/-- The triple an operation acts on: for `propose` and `demote` that of the loaded declaration, for
`approve` and `reject` that of the motion; an import only keeps clear of another triple. -/
def Call.ActsOn (config : RuntimeConfig) (s : Session) (X Y : Triple) : Call → Prop
  | .propose args => ∀ d, getPaaDeclaration config s.world.directory args.task = .ok d →
      d.triple args.scope = X
  | .approve args | .reject args => ∀ p ∈ s.committed, p.motionId = args.motionId →
      p.event = .motionProposed → p.triple = X
  | .demote args => ∀ d, getPaaDeclaration config s.world.directory args.task = .ok d →
      d.triple args.scope = X
  | .importEvents events => ∀ e : AutonomyEvent, .ok e.toJsonDict ∈ events →
      e.triple ≠ Y ∧ ¬ MotionOn Y s.committed e.motionId

section Rows

variable {config : RuntimeConfig} {s s' : Session} {X Y : Triple} {m : Motion}

/-- A row of a motion without rows so far is beside every other triple. -/
theorem beside_of_fresh {t written : Table} {p : AutonomyEvent} (hne : X ≠ Y) (hfits : Fits t p)
    (hk : p.event = .motionProposed)
    (hw : ∀ e ∈ written, e.triple = X ∧ e.motionId = p.motionId) : Beside Y t written := by
  intro e he
  obtain ⟨hX, hm⟩ := hw e he
  refine ⟨fun h => hne (hX.symm.trans h), ?_⟩
  rintro ⟨q, hq, hqm, hqk, -⟩
  exact (hfits.unique q hq).2 ⟨hqm.trans hm, hqk.trans hk.symm⟩

/-- A row of a pending motion is beside every triple but that of the motion. -/
theorem beside_of_pending {t written : Table} {motionId : String} {p : AutonomyEvent} (hne : X ≠ Y)
    (hX : ∀ q ∈ t, q.motionId = motionId → q.event = .motionProposed → q.triple = X)
    (hp : Pending t motionId p)
    (hw : ∀ e ∈ written, e.triple = p.triple ∧ e.motionId = motionId) : Beside Y t written := by
  intro e he
  obtain ⟨hep, hm⟩ := hw e he
  refine ⟨fun h => hne ?_, ?_⟩
  · rw [← h, hep]
    exact (hX p hp.mem hp.motion hp.kind).symm
  · rintro ⟨q, hq, hqm, hqk, hqY⟩
    exact hne ((hX q hq (hqm.trans hm) hqk).symm.trans hqY)

variable [Hashlib]

theorem propose_beside {args : ProposeArgs} (hne : X ≠ Y)
    (hX : (Call.propose args).ActsOn config s X Y) (h : propose config args s = (.ok m, s')) :
    ∃ written, s'.committed = s.committed ++ written ∧ Beside Y s.committed written := by
  obtain ⟨p, e, hd, hscope, -, hpro, hc⟩ := propose_ok h
  obtain ⟨id, createdAt, hrow⟩ := hpro.row
  refine ⟨[e], hc, beside_of_fresh hne hpro.fits (by rw [hrow]; rfl) ?_⟩
  intro e' he'
  rw [List.mem_singleton.1 he']
  refine ⟨?_, rfl⟩
  rw [← hX p.declaration hd, ← hscope, hrow]
  rfl

theorem approve_beside {args : MotionArgs} (hne : X ≠ Y)
    (hX : (Call.approve args).ActsOn config s X Y) (h : approve config args s = (.ok m, s')) :
    ∃ written, s'.committed = s.committed ++ written ∧ Beside Y s.committed written := by
  obtain ⟨-, ⟨-, -, -, -, hc⟩ | ⟨actor, p, a, c, happ, hc⟩⟩ := approve_ok h
  · refine ⟨[], ?_, fun _ he => nomatch he⟩
    rw [List.append_nil, hc]
  · obtain ⟨ida, ata, hrowa⟩ := happ.approvedRow
    obtain ⟨idc, atc, hrowc⟩ := happ.changedRow
    refine ⟨[a, c], hc, beside_of_pending hne hX happ.pending ?_⟩
    rw [hrowa, hrowc]
    simp [approvalRow, AutonomyEvent.triple]

omit [Hashlib] in
theorem reject_beside {args : MotionArgs} (hne : X ≠ Y)
    (hX : (Call.reject args).ActsOn config s X Y) (h : reject config args s = (.ok m, s')) :
    ∃ written, s'.committed = s.committed ++ written ∧ Beside Y s.committed written := by
  obtain ⟨-, ⟨-, -, -, hc⟩ | ⟨actor, p, r, hrej, hc⟩⟩ := reject_ok h
  · refine ⟨[], ?_, fun _ he => nomatch he⟩
    rw [List.append_nil, hc]
  · obtain ⟨id, createdAt, hrow⟩ := hrej.row
    refine ⟨[r], hc, beside_of_pending hne hX hrej.pending ?_⟩
    rw [hrow]
    simp [rejectionRow, AutonomyEvent.triple]

theorem demote_beside {args : DemoteArgs} (hne : X ≠ Y)
    (hX : (Call.demote args).ActsOn config s X Y) (h : demote config args s = (.ok m, s')) :
    ∃ written, s'.committed = s.committed ++ written ∧ Beside Y s.committed written := by
  obtain ⟨d, actor, fromPosition, ref, sha, p, a, c, hd, hdem, hc⟩ := demote_ok h
  obtain ⟨idp, atp, hp⟩ := hdem.proposedRow
  obtain ⟨ida, ata, ha⟩ := hdem.approvedRow
  obtain ⟨idc, atc, hcr⟩ := hdem.changedRow
  refine ⟨[p, a, c], hc, beside_of_fresh hne hdem.fits.1 (by rw [hp]; rfl) ?_⟩
  rw [← hX d hd, hp, ha, hcr]
  simp [demotionRow, AutonomyEvent.triple, PaaTaskDeclaration.triple]

omit [Hashlib] in
theorem importEvents_beside {events : List (Except PyError EventMapping)} {u : Unit}
    (hX : (Call.importEvents events).ActsOn config s X Y)
    (h : importEvents events s = (.ok u, s')) :
    ∃ written, s'.committed = s.committed ++ written ∧ Beside Y s.committed written := by
  obtain ⟨-, written, rfl, -, -, hw⟩ := importEvents_ok h
  refine ⟨written, congrArg World.committed hw, fun e he => hX e ?_⟩
  exact List.mem_map_of_mem he

end Rows

/-- **Authority partitions do not leak.** An operation on one triple, however it ends, leaves every
other triple untouched, and its position is resolved as before. -/
theorem partitions_isolated [Hashlib] (config : RuntimeConfig) (call : Call) (s : Session)
    {X Y : Triple} (hne : X ≠ Y) (hX : call.ActsOn config s X Y) :
    Untouched Y s.committed (call.run config s).2.committed ∧
      ∀ (config' : RuntimeConfig) (w : World) (io : Io), w.working = none →
        (∀ d, getPaaDeclaration config' w.directory Y.task = .ok d →
          d.version = Y.declarationVersion) →
        (resolveCurrentPosition config' Y.task Y.scope
            ⟨{ w with committed := (call.run config s).2.committed }, io⟩).1 =
          (resolveCurrentPosition config' Y.task Y.scope
            ⟨{ w with committed := s.committed }, io⟩).1 := by
  have huntouched : Untouched Y s.committed (call.run config s).2.committed := by
    rcases hrun : call.run config s with ⟨e | m, s'⟩
    · rw [(call_all_or_nothing config call s).1 e s' hrun]
      exact .refl Y _
    · suffices h : ∃ written, s'.committed = s.committed ++ written ∧ Beside Y s.committed written by
        obtain ⟨written, hw, hbeside⟩ := h
        rw [hw]
        exact untouched_append hbeside
      have hmap : ∀ {α : Type} {x : Py α} {f : α → Option Motion}, (f <$> x) s = (.ok m, s') →
          ∃ a, x s = (.ok a, s') := by
        intro α x f h
        rw [map_run] at h
        rcases hr : x s with ⟨e | a, s₁⟩ <;> rw [hr] at h <;> cases h
        exact ⟨a, rfl⟩
      cases call with
      | propose args =>
        obtain ⟨_, hr⟩ := hmap hrun
        exact propose_beside hne hX hr
      | approve args =>
        obtain ⟨_, hr⟩ := hmap hrun
        exact approve_beside hne hX hr
      | reject args =>
        obtain ⟨_, hr⟩ := hmap hrun
        exact reject_beside hne hX hr
      | demote args =>
        obtain ⟨_, hr⟩ := hmap hrun
        exact demote_beside hne hX hr
      | importEvents events =>
        obtain ⟨_, hr⟩ := hmap hrun
        exact importEvents_beside hX hr
  exact ⟨huntouched, fun config' w io hclosed hversion =>
    resolve_of_changes huntouched.changes hversion hclosed io⟩

/-- A store without rows, with a declaration of version 1. -/
def Scenario.session : Session :=
  ⟨⟨[], none, false, .ok [Scenario.declaration], Disk.empty⟩, Scenario.io 0⟩

/-- A promotion is proposed. -/
def Scenario.proposal : Call := .propose ⟨"t", none, "hotl", "file", none, none⟩

/-- A proposal that is made at one version leaves the next version untouched. -/
theorem partitions_isolated_sample :
    (@Call.run Scenario.hashing Scenario.config Scenario.proposal
        Scenario.session).2.committed.length = 1 ∧
      Untouched ⟨"t", 2, none⟩ Scenario.session.committed
        (@Call.run Scenario.hashing Scenario.config Scenario.proposal
          Scenario.session).2.committed := by
  have hacts : Scenario.proposal.ActsOn Scenario.config Scenario.session ⟨"t", 1, none⟩
      ⟨"t", 2, none⟩ := by
    intro d hd
    obtain ⟨-, ds, hds, hmem⟩ := getPaaDeclaration_ok hd
    cases hds
    rw [List.mem_singleton.1 hmem]
    rfl
  refine ⟨by decide +kernel, ?_⟩
  exact (@partitions_isolated Scenario.hashing _ _ _ _ _ (by decide) hacts).1

end PaaRuntime
