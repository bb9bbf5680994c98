import Mathlib.Order.WithBot
import PaaRuntime.Histories
import PaaRuntime.Lib.DateTime
import PaaRuntime.Lookups

/-!
# Store order and time order

The contract admits every date-time of RFC 3339 as a `created_at`, and an import keeps it as it is
spelled; the queries compare it as a text. `System.time_order_iff`: the lookups of a triple find the
latest change in time exactly where the texts order its changes, and the points that are asked for,
as their instants do.
-/

namespace PaaRuntime

/-- The instant of a `created_at`, above every text that is no date-time. -/
def instant (createdAt : String) : WithBot ℚ := (DateTime.instant? (Text.lit createdAt)).elim ⊥ (↑)

/-- A point in time, with an id that breaks ties. -/
def moment (createdAt id : String) : WithBot ℚ ×ₗ String := toLex (instant createdAt, id)

def AutonomyEvent.moment (e : AutonomyEvent) : WithBot ℚ ×ₗ String :=
  PaaRuntime.moment e.createdAt e.id

/-- The latest change of a triple in time. -/
def latestInTime (Y : Triple) (table : Table) : Option AutonomyEvent :=
  StampedLog.latest AutonomyEvent.moment (positionChanges Y table)

/-- The latest change of a triple that is in time strictly before a point. -/
def beforeInTime (Y : Triple) (createdAt id : String) (table : Table) : Option AutonomyEvent :=
  StampedLog.before AutonomyEvent.moment (positionChanges Y table) (moment createdAt id)

/-- The points `(created_at, id)` of the changes of a triple. -/
def ownPoints (Y : Triple) (table : Table) : Set (String × String) :=
  fun p => ∃ e ∈ positionChanges Y table, p = (e.createdAt, e.id)

/-- The lookups of a triple, at some points, find what is latest in time. -/
structure InTimeOrder (table : Table) (Y : Triple) (points : Set (String × String)) : Prop where
  latest : latestPositionChanged Y table = latestInTime Y table
  before : ∀ p ∈ points, positionChangedBefore Y (toLex p) table = beforeInTime Y p.1 p.2 table
  resolved : ∀ d scope, PaaTaskDeclaration.triple d scope = Y →
    positionIn table d scope = currentPosition d (latestInTime Y table)

/-- Rows with distinct ids stand at distinct moments. -/
theorem distinct_moments {table : Table} (h : (table.map (·.id)).Nodup) :
    StampedLog.Distinct AutonomyEvent.moment table := fun _ ha _ hb hab =>
  List.inj_on_of_nodup_map h ha hb (congrArg (fun m : WithBot ℚ ×ₗ String => (ofLex m).2) hab)

theorem inTimeOrder_iff {table : Table} (hids : (table.map (·.id)).Nodup) (Y : Triple)
    (points : Set (String × String)) (hown : ownPoints Y table ⊆ points) :
    InTimeOrder table Y points ↔ ∀ e ∈ positionChanges Y table, ∀ p ∈ points,
      (e.stamp < toLex p ↔ e.moment < moment p.1 p.2) := by
  have hagree := @StampedLog.before_agree_iff _ _ _ _ _ AutonomyEvent.stamp AutonomyEvent.moment
    (positionChanges Y table) ((fun p => (toLex p, moment p.1 p.2)) '' points)
    ((distinct_of_ids hids).filter _) ((distinct_moments hids).filter _)
    fun e he => ⟨(e.createdAt, e.id), hown ⟨e, he, rfl⟩, rfl⟩
  simp only [Set.forall_mem_image] at hagree
  rw [← hagree]
  constructor
  · intro h
    exact ⟨h.latest, fun p hp => h.before p hp⟩
  · rintro ⟨hlatest, hbefore⟩
    refine ⟨hlatest, fun p hp => hbefore hp, ?_⟩
    rintro d scope rfl
    exact congrArg (currentPosition d) hlatest

/-- In every state that the service and imports reach, the lookups of a triple find what is latest in
time, at the given points and at those of its changes, if and only if the texts order each of its
changes and each of those points as their instants do, ids breaking ties. -/
theorem System.time_order_iff [Hashlib] (config : RuntimeConfig) {directory : Directory} {W : System}
    (h : Reach config (init directory) W) (Y : Triple) (given : Set (String × String)) :
    InTimeOrder W.shared.table Y (given ∪ ownPoints Y W.shared.table) ↔
      ∀ e ∈ positionChanges Y W.shared.table, ∀ p ∈ given ∪ ownPoints Y W.shared.table,
        (e.stamp < toLex p ↔ e.moment < moment p.1 p.2) :=
  inTimeOrder_iff (List.pairwise_map.2 (ids_of_grown (fits_reach h))) Y _ Set.subset_union_right

namespace Scenario

/-- A change to a position, as a contract has it. -/
def changeAt (id createdAt : String) (toPosition : AutonomyPosition) : AutonomyEvent where
  id := id
  motionId := id
  task := "t"
  declarationVersion := 1
  scope := none
  event := .positionChanged
  fromPosition := .manual
  toPosition := toPosition
  evidenceRef := "evidence/paa/t.json"
  evidenceSha256 := "aaaaaaaaaaaaaaaaaaaaaaaaaaaaaaaaaaaaaaaaaaaaaaaaaaaaaaaaaaaaaaaa"
  actor := "user:operator"
  reason := "reviewed"
  createdAt := createdAt

/-- Client 0 imports events. -/
def importing (events : List AutonomyEvent) : List Action :=
  [.start 0 (.importEvents (events.map fun e => .ok e.toJsonDict)),
    .advance 0 (io 0) (.completes "tmp")]

/-- One change with milliseconds, as published fixtures have them, and one half a millisecond later with
microseconds, as the service writes them. -/
def mixedWidths : List AutonomyEvent :=
  [changeAt "a" "2026-03-01T10:00:00.000Z" .hitl, changeAt "b" "2026-03-01T10:00:00.000500Z" .hotl]

/-- The same two changes with microseconds. -/
def oneWidth : List AutonomyEvent :=
  [changeAt "a" "2026-03-01T10:00:00.000000Z" .hitl,
    changeAt "b" "2026-03-01T10:00:00.000500Z" .hotl]

theorem reach_after (actions : List Action) :
    @System.Reach hashing config (System.init (.ok [declaration])) (after actions) :=
  Run.foldl _ _ fun _ _ _ => trivial

end Scenario

/-- The later of the two changes has the smaller text. -/
theorem System.time_order_fails :
    ∃ W, @Reach Scenario.hashing Scenario.config (init (.ok [Scenario.declaration])) W ∧
      W.shared.table = Scenario.mixedWidths ∧
      (∀ e ∈ W.shared.table, (DateTime.instant? (Text.lit e.createdAt)).isSome) ∧
      ¬InTimeOrder W.shared.table ⟨"t", 1, none⟩ (ownPoints ⟨"t", 1, none⟩ W.shared.table) := by
  have htable : (Scenario.after (Scenario.importing Scenario.mixedWidths)).shared.table =
      Scenario.mixedWidths := by decide +kernel
  refine ⟨_, Scenario.reach_after _, htable, ?_, fun h => ?_⟩
  · rw [htable]
    decide +kernel
  · have hlatest := h.latest
    rw [htable] at hlatest
    have htext : (latestPositionChanged ⟨"t", 1, none⟩ Scenario.mixedWidths).map (·.id) =
      some "a" := by decide +kernel
    have htime : (latestInTime ⟨"t", 1, none⟩ Scenario.mixedWidths).map (·.id) = some "b" := by
      decide +kernel
    rw [hlatest, htime] at htext
    exact absurd htext (by decide)

theorem System.time_order_sample :
    InTimeOrder (Scenario.after (Scenario.importing Scenario.oneWidth)).shared.table ⟨"t", 1, none⟩
      (∅ ∪ ownPoints ⟨"t", 1, none⟩
        (Scenario.after (Scenario.importing Scenario.oneWidth)).shared.table) := by
  refine (@time_order_iff Scenario.hashing Scenario.config _ _ (Scenario.reach_after _) _ _).2 ?_
  have htable : (Scenario.after (Scenario.importing Scenario.oneWidth)).shared.table =
      Scenario.oneWidth := by decide +kernel
  rw [htable, Set.empty_union]
  have hall : ∀ e ∈ positionChanges ⟨"t", 1, none⟩ Scenario.oneWidth,
      ∀ e' ∈ positionChanges ⟨"t", 1, none⟩ Scenario.oneWidth,
        e.stamp < e'.stamp ↔ e.moment < e'.moment := by decide +kernel
  rintro e he _ ⟨e', he', rfl⟩
  exact hall e he e' he'

end PaaRuntime
