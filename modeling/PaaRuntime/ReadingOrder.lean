import PaaRuntime.Histories

/-!
# The order of reading

The readers order rows by `(created_at, id)`, and the rows of a transaction are stamped by clock
readings of their own. Where clock readings do not decrease, a motion reads back in the order it was
written exactly when no two of its rows tie on the timestamp with the later one having the smaller
id (`System.reads_in_order_iff`).
-/

namespace PaaRuntime

open Prog

/-- Of two rows with one timestamp, the later one has the greater id. -/
def TiesAscend (rows : Table) : Prop :=
  rows.Pairwise fun a b => a.createdAt = b.createdAt → a.id < b.id

/-- Both readers give the rows of a motion in the order they were written, and so as one of the
histories. -/
structure ReadsInOrder (t : Table) (m : String) : Prop where
  motion : eventsForMotion m t = motionRows m t
  all : ∀ task, (∀ e ∈ motionRows m t, ∀ k ∈ task, e.task = k) →
    (allEvents task t).filter (·.motionId = m) = motionRows m t
  history : motionRows m t ≠ [] → ∃ p, MotionHistory p (eventsForMotion m t)

section

variable {t : Table} {m : String} {task : Option String}

/-- What the reader of all rows gives of a motion is what its own reader gives. -/
theorem filter_allEvents_eq (hd : StampedLog.Distinct AutonomyEvent.stamp t)
    (htask : ∀ e ∈ motionRows m t, ∀ k ∈ task, e.task = k) :
    (allEvents task t).filter (·.motionId = m) = eventsForMotion m t := by
  unfold allEvents eventsForMotion
  rw [StampedLog.filter_inOrder (hd.filter _), List.filter_filter]
  congr 1
  apply List.filter_congr
  intro e he
  by_cases hm : e.motionId = m
  · simpa [hm] using htask e (mem_motionRows.2 ⟨he, hm⟩)
  · simp [hm]

/-- Where timestamps do not decrease and ids are distinct, stamps increase exactly where ties
ascend. -/
theorem stamps_le_iff {rows : Table} (hclock : rows.Pairwise (·.createdAt ≤ ·.createdAt))
    (hids : rows.Pairwise (·.id ≠ ·.id)) :
    rows.Pairwise (·.stamp ≤ ·.stamp) ↔ TiesAscend rows := by
  have hboth := hclock.and hids
  unfold TiesAscend
  have hiff : ∀ a b : AutonomyEvent, a.createdAt ≤ b.createdAt ∧ a.id ≠ b.id →
      (a.stamp ≤ b.stamp ↔ (a.createdAt = b.createdAt → a.id < b.id)) := by
    rintro a b ⟨hle, hne⟩
    rw [AutonomyEvent.stamp, AutonomyEvent.stamp, Prod.Lex.toLex_le_toLex]
    constructor
    · rintro (hlt | ⟨-, hid⟩) heq
      · exact absurd heq hlt.ne
      · exact lt_of_le_of_ne hid hne
    · intro h
      rcases hle.lt_or_eq with hlt | heq
      · exact .inl hlt
      · exact .inr ⟨heq, (h heq).le⟩
  exact ⟨fun h => (h.and hboth).imp fun hab => (hiff _ _ hab.2).1 hab.1,
    fun h => (h.and hboth).imp fun hab => (hiff _ _ hab.2).2 hab.1⟩

/-- A motion reads back in the order it was written exactly where its ties ascend. -/
theorem eventsForMotion_eq_iff (hclock : t.Pairwise (·.createdAt ≤ ·.createdAt))
    (hids : t.Pairwise (·.id ≠ ·.id)) :
    eventsForMotion m t = motionRows m t ↔ TiesAscend (motionRows m t) := by
  show _ ↔ TiesAscend (t.filter (·.motionId = m))
  rw [← stamps_le_iff (hclock.filter _) (hids.filter _)]
  exact StampedLog.inOrder_eq_self_iff

end

namespace System

variable [Hashlib]

/-- In every state that the service reaches under clock readings that do not decrease, a motion
reads back in the order it was written, its proposal first and then either its rejection or its
approval and its change, if and only if of two of its rows with one timestamp the later one has the
greater id. -/
theorem reads_in_order_iff (config : RuntimeConfig) {directory : Directory} {W : System}
    (h : Run (next config) ServiceOnly (init directory) W)
    (hclock : W.shared.table.Pairwise (·.createdAt ≤ ·.createdAt)) (m : String) :
    ReadsInOrder W.shared.table m ↔ TiesAscend (motionRows m W.shared.table) := by
  have hids : W.shared.table.Pairwise (·.id ≠ ·.id) := ids_of_grown (fits_reach h)
  have hd : StampedLog.Distinct AutonomyEvent.stamp W.shared.table := fun _ ha _ hb hab =>
    List.inj_on_of_nodup_map (List.pairwise_map.2 hids) ha hb (AutonomyEvent.id_eq_of_stamp_eq hab)
  rw [← eventsForMotion_eq_iff hclock hids]
  refine ⟨fun hreads => hreads.motion, fun heq => ⟨heq, fun task htask => ?_, fun hne => ?_⟩⟩
  · rw [filter_allEvents_eq hd htask, heq]
  · obtain ⟨e, he⟩ := List.exists_mem_of_ne_nil _ hne
    obtain ⟨het, rfl⟩ := mem_motionRows.1 he
    obtain ⟨p, -, -, hp, -⟩ := (history_rules h).1 e het
    exact ⟨p, heq ▸ hp⟩

end System

namespace Scenario

/-- Surroundings whose clock stands still while their ids descend. -/
def tied (n : ℕ) : Io :=
  { io n with clock := fun _ => text n 0, eventIds := fun k => text n (9 - k) }

/-- A promotion is proposed, and approved within one reading of the clock. -/
def approvedAtOnce : List Action :=
  calls 0 (.propose ⟨"t", none, "hotl", "file", none, none⟩) 0 11 ++
    [.start 1 (.approve ⟨text 9 0, "fine", none⟩), .advance 1 (io 11) (.completes "tmp"),
      .advance 1 (tied 12) (.completes "tmp")]

theorem run_approvedAtOnce : Run (@System.next hashing config) System.ServiceOnly
    (System.init (.ok [declaration])) (after approvedAtOnce) := by
  refine Run.foldl _ _ fun a ha W => ?_
  rcases List.mem_append.1 ha with ha | ha
  · exact serviceOnly_cycle a (List.mem_append_left _ ha) W
  · simp only [List.mem_cons, List.not_mem_nil, or_false] at ha
    rcases ha with rfl | rfl | rfl <;> trivial

end Scenario

/-- The approval and the change of one transaction tie on the clock, and read back the other way
round. -/
theorem System.reads_in_order_fails :
    ∃ W, Run (@System.next Scenario.hashing Scenario.config) System.ServiceOnly
        (System.init (.ok [Scenario.declaration])) W ∧
      W.shared.table.Pairwise (·.createdAt ≤ ·.createdAt) ∧
      (eventsForMotion (Scenario.text 9 0) W.shared.table).map (·.event) =
        [.motionProposed, .positionChanged, .motionApproved] ∧
      ¬ ReadsInOrder W.shared.table (Scenario.text 9 0) := by
  have hread : (eventsForMotion (Scenario.text 9 0)
      (Scenario.after Scenario.approvedAtOnce).shared.table).map (·.event) =
        [.motionProposed, .positionChanged, .motionApproved] := by decide +kernel
  have hwritten : (motionRows (Scenario.text 9 0)
      (Scenario.after Scenario.approvedAtOnce).shared.table).map (·.event) =
        [.motionProposed, .motionApproved, .positionChanged] := by decide +kernel
  refine ⟨_, Scenario.run_approvedAtOnce, by decide +kernel, hread, fun h => ?_⟩
  rw [h.motion, hwritten] at hread
  cases hread

/-- After a promotion and a demotion under a clock that moves, the promotion reads back in order. -/
theorem System.reads_in_order_cycle :
    ReadsInOrder (Scenario.after Scenario.cycle).shared.table (Scenario.text 9 0) := by
  refine (@System.reads_in_order_iff Scenario.hashing Scenario.config _ _
    (Run.foldl _ _ Scenario.serviceOnly_cycle) (by decide +kernel) _).2 ?_
  unfold TiesAscend
  decide +kernel

end PaaRuntime
