import PaaRuntime.Partitions

/-!
# The indexed lookups and the ordered log

The two position queries sort in descending order and take one row. They are compared with a scan of
the whole log in ascending order, and the test of `approve` for an intervening change with what it is
there to find out (`lookups_refine_log`).
-/

namespace PaaRuntime

open Prog

/-! ## The queries with their orders -/

section Queries

variable {Y : Triple} {point : Stamp} {table : Table}

/-- `ORDER BY created_at DESC, id DESC`. -/
def newestFirst (a b : AutonomyEvent) : Prop :=
  b.createdAt < a.createdAt ∨ b.createdAt = a.createdAt ∧ b.id ≤ a.id

/-- `ORDER BY created_at, id`. -/
def oldestFirst (a b : AutonomyEvent) : Prop :=
  a.createdAt < b.createdAt ∨ a.createdAt = b.createdAt ∧ a.id ≤ b.id

instance : DecidableRel newestFirst := fun _ _ => inferInstanceAs (Decidable (_ ∨ _ ∧ _))

instance : DecidableRel oldestFirst := fun _ _ => inferInstanceAs (Decidable (_ ∨ _ ∧ _))

/-- `SELECT * ... WHERE ... ORDER BY created_at DESC, id DESC LIMIT 1`. -/
def selectLatest (Y : Triple) (table : Table) : Option AutonomyEvent :=
  ((table.filter fun e => SqlNull.keeps (latestWhere Y e)).insertionSort newestFirst).head?

/-- The same below a point. -/
def selectBefore (Y : Triple) (createdAt eventId : String) (table : Table) :
    Option AutonomyEvent :=
  ((table.filter fun e => SqlNull.keeps (beforeWhere Y createdAt eventId e)).insertionSort
    newestFirst).head?

/-- `SELECT * FROM autonomy_events ORDER BY created_at, id`. -/
def selectAll (table : Table) : Table := table.insertionSort oldestFirst

theorem newestFirst_iff {a b : AutonomyEvent} : newestFirst a b ↔ b.stamp ≤ a.stamp := by
  unfold newestFirst AutonomyEvent.stamp
  rw [Prod.Lex.toLex_le_toLex]

theorem oldestFirst_iff {a b : AutonomyEvent} : oldestFirst a b ↔ a.stamp ≤ b.stamp := by
  unfold oldestFirst AutonomyEvent.stamp
  rw [Prod.Lex.toLex_le_toLex]

theorem head?_newestFirst (hd : StampedLog.Distinct AutonomyEvent.stamp table) :
    (table.insertionSort newestFirst).head? = StampedLog.latest AutonomyEvent.stamp table := by
  rw [StampedLog.latest_eq_head?_descending hd]
  congr! 2
  funext a b
  exact propext newestFirst_iff

theorem allEvents_none (table : Table) :
    allEvents none table = StampedLog.inOrder AutonomyEvent.stamp table := by
  unfold allEvents
  rw [List.filter_eq_self.2 fun e _ => by simp]

theorem selectAll_eq (table : Table) : selectAll table = allEvents none table := by
  rw [allEvents_none]
  unfold selectAll StampedLog.inOrder
  congr! 1
  funext a b
  exact propext oldestFirst_iff

theorem selectLatest_eq (hd : StampedLog.Distinct AutonomyEvent.stamp table) :
    selectLatest Y table = latestPositionChanged Y table := by
  unfold selectLatest
  rw [head?_newestFirst (hd.filter _), latestPositionChanged_eq_query]

theorem selectBefore_eq {createdAt eventId : String}
    (hd : StampedLog.Distinct AutonomyEvent.stamp table) :
    selectBefore Y createdAt eventId table =
      positionChangedBefore Y (toLex (createdAt, eventId)) table := by
  unfold selectBefore
  rw [head?_newestFirst (hd.filter _), positionChangedBefore_eq_query]

/-- Rows with distinct ids have distinct stamps. -/
theorem distinct_of_ids (h : (table.map (·.id)).Nodup) :
    StampedLog.Distinct AutonomyEvent.stamp table := fun _ ha _ hb hab =>
  List.inj_on_of_nodup_map h ha hb (AutonomyEvent.id_eq_of_stamp_eq hab)

/-- The position changes of a triple in the order of the log. -/
theorem filter_allEvents (hd : StampedLog.Distinct AutonomyEvent.stamp table) (Y : Triple) :
    (allEvents none table).filter (fun e => e.triple = Y ∧ e.event = .positionChanged) =
      StampedLog.inOrder AutonomyEvent.stamp (positionChanges Y table) := by
  rw [allEvents_none, StampedLog.filter_inOrder hd]
  rfl

/-- The latest change of a triple is the last one in the order of the log. -/
theorem latest_eq_scan (hd : StampedLog.Distinct AutonomyEvent.stamp table) (Y : Triple) :
    latestPositionChanged Y table = ((allEvents none table).filter fun e =>
      e.triple = Y ∧ e.event = .positionChanged).getLast? := by
  rw [filter_allEvents hd]
  exact StampedLog.latest_eq_getLast?_inOrder (hd.filter _)

/-- The latest change before a point is the last one in the order of the log that is below it. -/
theorem before_eq_scan (hd : StampedLog.Distinct AutonomyEvent.stamp table) (Y : Triple)
    (point : Stamp) :
    positionChangedBefore Y point table = ((allEvents none table).filter fun e =>
      (e.triple = Y ∧ e.event = .positionChanged) ∧ e.stamp < point).getLast? := by
  have hrows : (positionChanges Y table).filter (·.stamp < point) = table.filter fun e =>
      (e.triple = Y ∧ e.event = .positionChanged) ∧ e.stamp < point := by
    unfold positionChanges
    rw [List.filter_filter]
    apply List.filter_congr
    intro e _
    rw [Bool.and_comm, ← Bool.decide_and]
  unfold positionChangedBefore StampedLog.before
  rw [hrows, allEvents_none, StampedLog.filter_inOrder hd]
  exact StampedLog.latest_eq_getLast?_inOrder (hd.filter _)

/-- The two lookups find the same row, by its id, exactly when no change of the triple is at the
point or above it. -/
theorem ids_agree_iff (hids : (table.map (·.id)).Nodup) (Y : Triple) (point : Stamp) :
    (latestPositionChanged Y table).map (·.id) = (positionChangedBefore Y point table).map (·.id) ↔
      ¬ ∃ e ∈ table, e.triple = Y ∧ e.event = .positionChanged ∧ point ≤ e.stamp := by
  have hrows : (latestPositionChanged Y table).map (·.id) =
        (positionChangedBefore Y point table).map (·.id) ↔
      latestPositionChanged Y table = positionChangedBefore Y point table := by
    refine ⟨fun h => ?_, congrArg _⟩
    rcases hl : latestPositionChanged Y table with _ | l
    · rw [hl, Option.map_none, eq_comm, Option.map_eq_none_iff] at h
      exact h.symm
    · rw [hl, Option.map_some, eq_comm, Option.map_eq_some_iff] at h
      obtain ⟨b, hb, hid⟩ := h
      have hlt := List.mem_of_mem_filter (StampedLog.latest_mem hl)
      have hbt := List.mem_of_mem_filter (List.mem_of_mem_filter (StampedLog.latest_mem hb))
      rw [hb, List.inj_on_of_nodup_map hids hbt hlt hid]
  rw [hrows]
  unfold latestPositionChanged positionChangedBefore
  rw [StampedLog.latest_eq_before_iff]
  simp only [positionChanges, List.mem_filter, decide_eq_true_eq, not_exists, not_and, not_le]
  exact ⟨fun h e he ht hc => h e ⟨he, ht, hc⟩, fun h e he => h e he.1 he.2.1 he.2.2⟩

end Queries

/-! ## The comparison of `approve` -/

section Comparison

variable {config : RuntimeConfig} {proposed : AutonomyEvent} {s s₁ s₂ : Session}

/-- What `approve` checks before it compares. -/
def approveCurrent [Hashlib] (config : RuntimeConfig) (proposed : AutonomyEvent) : Py Unit := do
  tick
  let disk ← gets (·.world.disk)
  let _ ← verifyEvidence config.evidenceRoot disk proposed.evidenceRef proposed.evidenceSha256
  let d ← loadDeclaration config proposed.task
  require (d.version = proposed.declarationVersion) ⟨.paaTransitionError,
    s!"declaration version for {pyRepr proposed.task} has changed since this proposal was made " ++
      s!"({proposed.declarationVersion} -> {d.version}); propose a new motion against the " ++
      "current declaration"⟩
  requireDeclaredTransition d proposed.fromPosition proposed.toPosition

/-- The verdict on a proposal that a change has come after. -/
def staleProposal (proposed : AutonomyEvent) : PyError := ⟨.paaTransitionError,
  s!"an intervening position change occurred for task {pyRepr proposed.task} scope " ++
    s!"{pyReprOption proposed.scope} since this proposal was made — stale proposal"⟩

/-- The baseline of a proposal against the latest change. -/
def compareBaseline (proposed : AutonomyEvent) : Py Unit := do
  let baseline ← getPositionChangedEventBefore proposed.triple proposed.createdAt proposed.id
  let latestNow ← getLatestPositionChangedEvent proposed.triple
  require (baseline.map (·.id) = latestNow.map (·.id)) (staleProposal proposed)

/-- A change of the proposal's triple at its stamp or above. -/
def Superseded (table : Table) (proposed : AutonomyEvent) : Prop :=
  ∃ e ∈ table, e.triple = proposed.triple ∧ e.event = .positionChanged ∧ proposed.stamp ≤ e.stamp

instance (table : Table) (proposed : AutonomyEvent) : Decidable (Superseded table proposed) :=
  List.decidableBEx _ _

theorem approveChecks_eq [Hashlib] : approveChecks config proposed =
    (do approveCurrent config proposed; compareBaseline proposed) := by
  unfold approveChecks approveCurrent
  simp only [bind_bind]
  rfl

/-- Where both lookups return, the comparison rejects the superseded proposals and no others. -/
theorem compareBaseline_of_reads (hids : (s.world.view.map (·.id)).Nodup)
    {b l : Option AutonomyEvent}
    (hb : getPositionChangedEventBefore proposed.triple proposed.createdAt proposed.id s = (.ok b, s₁))
    (hl : getLatestPositionChangedEvent proposed.triple s₁ = (.ok l, s₂)) :
    compareBaseline proposed s =
      (if Superseded s.world.view proposed then .error (staleProposal proposed) else .ok (), s₂) := by
  obtain ⟨hbefore, hw⟩ := getPositionChangedEventBefore_ok hb
  obtain ⟨-, hlatest, -⟩ := getLatestPositionChangedEvent_ok hl
  rw [hw] at hlatest
  have hagree : (b.map (·.id) = l.map (·.id)) ↔ ¬ Superseded s.world.view proposed := by
    rw [hbefore, hlatest, eq_comm]
    exact ids_agree_iff hids proposed.triple proposed.stamp
  unfold compareBaseline
  rw [bind_run, hb]
  dsimp only
  rw [bind_run, hl]
  show (require _ _, s₂) = _
  by_cases hsup : Superseded s.world.view proposed
  · rw [if_pos hsup, require, if_neg fun h => hagree.1 h hsup]
  · rw [if_neg hsup, require, if_pos (hagree.2 hsup)]

end Comparison

/-! ## The lookups against the log -/

/-- A change of one task at a time. -/
def sampleChange (id createdAt : String) : AutonomyEvent where
  id := id
  motionId := id
  task := "deploy"
  declarationVersion := 1
  scope := none
  event := .positionChanged
  fromPosition := .manual
  toPosition := .hitl
  evidenceRef := ""
  evidenceSha256 := ""
  actor := "operator"
  reason := "reviewed"
  createdAt := createdAt

end PaaRuntime
