import PaaRuntime.ServiceSpec

/-!
# The motion rules

The published rules of a motion's rows: proposed; proposed and rejected; or proposed, approved and
changed, all with the identity of the proposal. `MotionHistory` states them of the rows in commit
order; a table `Follows` them when every motion does.
-/

namespace PaaRuntime

/-- The rows of a motion in the order they were committed. -/
def motionRows (m : String) (t : Table) : Table := t.filter (·.motionId = m)

/-- The histories of a motion that `p` proposed. -/
inductive MotionHistory (p : AutonomyEvent) : Table → Prop
  | proposed (hp : p.event = .motionProposed) : MotionHistory p [p]
  | rejected {r} (hp : p.event = .motionProposed) (hr : r.event = .motionRejected)
      (hri : r.identity = p.identity) : MotionHistory p [p, r]
  | executed {a c} (hp : p.event = .motionProposed) (ha : a.event = .motionApproved)
      (hc : c.event = .positionChanged) (hai : a.identity = p.identity)
      (hci : c.identity = p.identity) : MotionHistory p [p, a, c]

/-- Every motion of the table has one of the histories. -/
def Follows (t : Table) : Prop := ∀ e ∈ t, ∃ p, MotionHistory p (motionRows e.motionId t)

section

variable {t written : Table} {m : String} {e p : AutonomyEvent}

theorem mem_motionRows : e ∈ motionRows m t ↔ e ∈ t ∧ e.motionId = m := by
  unfold motionRows
  rw [List.mem_filter, decide_eq_true_eq]

theorem motionRows_append (m : String) (t written : Table) :
    motionRows m (t ++ written) = motionRows m t ++ motionRows m written :=
  List.filter_append ..

/-- Rows of one motion come after those it has. -/
theorem motionRows_append_self (t : Table) (h : ∀ e ∈ written, e.motionId = m) :
    motionRows m (t ++ written) = motionRows m t ++ written := by
  have hself : motionRows m written = written :=
    List.filter_eq_self.2 fun e he => decide_eq_true (h e he)
  rw [motionRows_append, hself]

theorem motionRows_eq_nil (h : ∀ e ∈ written, e.motionId ≠ m) : motionRows m written = [] :=
  List.filter_eq_nil_iff.2 fun e he => by simpa using h e he

/-- The rows a reader gets are those of the motion. -/
theorem mem_eventsForMotion_iff : e ∈ eventsForMotion m t ↔ e ∈ motionRows m t :=
  mem_eventsForMotion.trans mem_motionRows.symm

namespace MotionHistory

theorem head_mem {rows : Table} (h : MotionHistory p rows) : p ∈ rows := by
  cases h <;> exact List.mem_cons_self

theorem kind {rows : Table} (h : MotionHistory p rows) : p.event = .motionProposed := by
  cases h <;> assumption

/-- All rows of a motion agree on the identity fields. -/
theorem identity {rows : Table} (h : MotionHistory p rows) (he : e ∈ rows) :
    e.identity = p.identity := by
  cases h <;> simp only [List.mem_cons, List.not_mem_nil, or_false] at he
  case proposed => rw [he]
  case rejected =>
    rcases he with rfl | rfl
    · rfl
    · assumption
  case executed =>
    rcases he with rfl | rfl | rfl
    · rfl
    · assumption
    · assumption

/-- The proposal is the only row of its kind. -/
theorem eq_of_proposed {rows : Table} (h : MotionHistory p rows) (he : e ∈ rows)
    (hk : e.event = .motionProposed) : e = p := by
  cases h <;> simp only [List.mem_cons, List.not_mem_nil, or_false] at he <;> grind

/-- A motion with no row of another kind is pending. -/
theorem eq_singleton {rows : Table} (h : MotionHistory p rows)
    (hall : ∀ e ∈ rows, e.event = .motionProposed) : rows = [p] := by
  cases h with
  | proposed => rfl
  | rejected hp hr =>
    have := hall _ (List.mem_cons_of_mem _ List.mem_cons_self)
    rw [hr] at this
    cases this
  | executed hp ha =>
    have := hall _ (List.mem_cons_of_mem _ List.mem_cons_self)
    rw [ha] at this
    cases this

/-- A rejected motion has neither an approval nor a change. -/
theorem not_both {rows : Table} (h : MotionHistory p rows) {r : AutonomyEvent} (hr : r ∈ rows)
    (hrk : r.event = .motionRejected) (he : e ∈ rows) :
    e.event ≠ .motionApproved ∧ e.event ≠ .positionChanged := by
  cases h <;> simp only [List.mem_cons, List.not_mem_nil, or_false] at hr he <;> grind

/-- An approval and a change come together. -/
theorem approved_iff {rows : Table} (h : MotionHistory p rows) :
    (∃ e ∈ rows, e.event = .motionApproved) ↔ ∃ e ∈ rows, e.event = .positionChanged := by
  cases h <;> simp_all

/-- Rows appended to a motion that is no longer pending break its history. -/
theorem final {rows more : Table} {q : AutonomyEvent} (h : MotionHistory p rows)
    (h' : MotionHistory q (rows ++ more)) (hlen : 1 < rows.length) : more = [] := by
  cases h with
  | proposed => simp at hlen
  | rejected hp hr =>
    cases more with
    | nil => rfl
    | cons a more =>
      rcases h' with _ | _ | ⟨_, ha⟩
      rw [hr] at ha
      cases ha
  | executed =>
    cases more with
    | nil => rfl
    | cons a more => cases h'

end MotionHistory

/-! ## What the rules say of projections -/

theorem byEvent_isSome {events : Table} {k : AutonomyEventType} :
    (byEvent events k).isSome ↔ ∃ e ∈ events, e.event = k := by
  rw [← Option.ne_none_iff_isSome, Ne, byEvent_eq_none]
  simp

/-- The row found for a kind, where a motion's rows have one or none of it. -/
theorem byEvent_of_perm {rows : Table} {k : AutonomyEventType} (h : (motionRows m t).Perm rows)
    (hk : (rows.filter (·.event = k)).length ≤ 1) :
    byEvent (eventsForMotion m t) k = (rows.filter (·.event = k)).head? := by
  have hperm : ((eventsForMotion m t).filter (·.event = k)).Perm (rows.filter (·.event = k)) :=
    ((StampedLog.inOrder_perm_self _ _).trans h).filter _
  unfold byEvent
  rcases hf : rows.filter (·.event = k) with _ | ⟨x, _ | ⟨y, l⟩⟩ <;> rw [hf] at hperm hk
  · rw [List.perm_nil.1 hperm, hf]
    rfl
  · rw [List.perm_singleton.1 hperm, hf]
    rfl
  · simp at hk

/-- A motion that follows the rules is never seen as approved only. -/
theorem MotionHistory.status_ne_approved {rows events : Table} (h : MotionHistory p rows)
    (hmem : ∀ e, e ∈ events ↔ e ∈ rows) : motionStatus events ≠ .approved := by
  unfold motionStatus
  have hap := h.approved_iff
  simp only [byEvent_isSome, hmem]
  split_ifs with h₁ h₂ h₃ <;> simp_all

/-- A motion that follows the rules projects. -/
theorem MotionHistory.projects {rows events : Table} (h : MotionHistory p rows)
    (hmem : ∀ e, e ∈ events ↔ e ∈ rows) : ∃ m, projectMotion events = .ok m := by
  rcases hm : projectMotion events with err | m
  · exact absurd h.kind (projectMotion_error hm p ((hmem p).2 h.head_mem))
  · exact ⟨m, rfl⟩

end

end PaaRuntime
