import PaaRuntime.Lib.Grouping
import PaaRuntime.Histories

/-!
# Listing motions

`list_motions` groups the rows it reads by motion, projects every group before it fails, and sorts
what is left after the status filter. Over any rows in which a motion has one row of a kind and one
task, that is a view of the motions one by one (`listMotions_faithful`).
-/

namespace PaaRuntime

open Prog

/-! ## What is read makes the listing -/

/-- The error that names the motions without a proposal. -/
def corruptHistories (ids : List String) : PyError := ⟨.paaCorruptHistoryError,
  s!"motions have no motion_proposed event: {pyReprList ids}"⟩

/-- What `list_motions` makes of the rows it reads. -/
def listing (status : Option String) (events : Table) : Except PyError (List Motion) := do
  let groups := grouped events
  let corrupt := (groups.filter fun g => (projectMotion g.2).toOption.isNone).map (·.1)
  require (corrupt = []) (corruptHistories (pySorted corrupt))
  let motions := groups.filterMap fun g => (projectMotion g.2).toOption
  return sortedMotions (motions.filter fun m => ∀ s ∈ status, m.status.text = s)

/-- A text that a status filter may be. -/
def ValidStatus (status : Option String) : Prop := ∀ s ∈ status, (MotionStatus.ofText? s).isSome

section

variable {t rows rows' events : Table} {status task : Option String} {s s₁ : Session} {m : String}
  {k : AutonomyEventType} {motion : Motion}

theorem listMotions_of_read (hstatus : ValidStatus status)
    (hread : getAutonomyEvents task s = (.ok events, s₁)) :
    listMotions status task s = (listing status events, s₁) := by
  unfold listMotions
  rw [require_bind_of (show ∀ s ∈ status, (MotionStatus.ofText? s).isSome from hstatus), bind_run,
    hread]
  unfold listing corruptHistories
  dsimp only
  rw [bind_run, monadLift_run]
  unfold require
  split_ifs <;> rfl

/-- The groups are those of a dictionary of lists filled in the order of reading. -/
theorem grouped_eq_foldl (events : Table) :
    grouped events = events.foldl (Grouping.addRow (·.motionId)) [] :=
  Grouping.groups_eq_foldl _ _

/-! ## Projections -/

/-- A motion's rows have one row of a kind: their order does not matter to what is found. -/
theorem byEvent_perm (h : rows.Perm rows') (hkinds : (rows.map (·.event)).Nodup) :
    byEvent rows k = byEvent rows' k := by
  have hperm : (rows.filter (·.event = k)).Perm (rows'.filter (·.event = k)) := h.filter _
  have hone : ((rows.filter (·.event = k)).map (·.event)).Nodup :=
    hkinds.sublist (List.filter_sublist.map _)
  have hkind : ∀ e ∈ rows.filter (·.event = k), e.event = k := fun e he => by
    simpa using (List.mem_filter.1 he).2
  unfold byEvent
  rcases hf : rows.filter (·.event = k) with _ | ⟨a, _ | ⟨b, l⟩⟩
  · rw [hf] at hperm
    rw [hf, List.nil_perm.1 hperm]
  · rw [hf] at hperm
    rw [hf, List.singleton_perm.1 hperm]
  · rw [hf] at hone hkind
    simp [hkind] at hone

theorem projectMotion_perm (h : rows.Perm rows') (hkinds : (rows.map (·.event)).Nodup) :
    projectMotion rows = projectMotion rows' := by
  unfold projectMotion motionStatus
  simp only [byEvent_perm h hkinds]

/-- A motion projects exactly when one of its rows proposes it. -/
theorem projectMotion_isNone :
    (projectMotion rows).toOption.isNone ↔ ∀ e ∈ rows, e.event ≠ .motionProposed := by
  rw [← byEvent_eq_none]
  unfold projectMotion
  rcases byEvent rows .motionProposed with _ | p <;> simp [Except.toOption]

/-- What a projection carries of the motion's proposal. -/
theorem projectMotion_proposal (h : projectMotion rows = .ok motion) :
    ∃ p ∈ rows, p.event = .motionProposed ∧ motion.motionId = p.motionId ∧ motion.task = p.task := by
  unfold projectMotion at h
  rcases hp : byEvent rows .motionProposed with _ | p <;> rw [hp] at h <;> cases h
  obtain ⟨hmem, hkind⟩ := byEvent_eq_some hp
  exact ⟨p, hmem, hkind, rfl, rfl⟩

end

/-! ## The groups under a filter -/

/-- Rows in which a motion has one row of a kind, and one task. -/
structure Keyed (t : Table) : Prop where
  unique : (t.map fun e => (e.motionId, e.event)).Nodup
  task : ∀ a ∈ t, ∀ b ∈ t, a.motionId = b.motionId → a.task = b.task

/-- A motion has rows under the task filter. -/
def Shown (t : Table) (task : Option String) (m : String) : Prop :=
  ∃ e ∈ t, e.motionId = m ∧ ∀ k ∈ task, e.task = k

/-- A motion under the task filter has no proposal. -/
def Corrupt (t : Table) (task : Option String) (m : String) : Prop :=
  Shown t task m ∧ ∀ e ∈ t, e.motionId = m → e.event ≠ .motionProposed

/-- The projections of the motions under both filters. -/
def Listed (t : Table) (status task : Option String) (motion : Motion) : Prop :=
  ∃ m, Shown t task m ∧ projectMotion (eventsForMotion m t) = .ok motion ∧
    ∀ s ∈ status, motion.status.text = s

/-- What the listing is sorted by. -/
def Motion.key (motion : Motion) : Stamp := toLex (motion.proposedAt, motion.motionId)

section

variable {t : Table} {status task : Option String} {m : String} {g : String × Table}
  {motion motion' : Motion}

theorem mem_allEvents {e : AutonomyEvent} :
    e ∈ allEvents task t ↔ e ∈ t ∧ ∀ k ∈ task, e.task = k := by
  rw [allEvents, StampedLog.mem_inOrder, List.mem_filter, decide_eq_true_eq]

theorem shown_iff : (∃ e ∈ allEvents task t, e.motionId = m) ↔ Shown t task m := by
  simp only [mem_allEvents, Shown]
  exact ⟨fun ⟨e, he, hm⟩ => ⟨e, he.1, hm, he.2⟩, fun ⟨e, he, hm, hk⟩ => ⟨e, ⟨he, hk⟩, hm⟩⟩

namespace Keyed

variable (h : Keyed t)
include h

theorem kinds (m : String) : ((eventsForMotion m t).map (·.event)).Nodup := by
  have hperm : ((eventsForMotion m t).map (·.event)).Perm ((motionRows m t).map (·.event)) :=
    (StampedLog.inOrder_perm_self _ _).map _
  rw [hperm.nodup_iff]
  have hpairs := h.unique.sublist (List.filter_sublist (p := (·.motionId = m)).map _)
  refine List.Nodup.of_map (m, ·) ?_
  rw [List.map_map]
  convert hpairs using 1
  apply List.map_congr_left
  intro e he
  show (m, e.event) = (e.motionId, e.event)
  rw [(mem_motionRows.1 he).2]

/-- The task filter shows all rows of a motion or none. -/
theorem filter_allEvents (hm : Shown t task m) :
    ((allEvents task t).filter (·.motionId = m)).Perm (eventsForMotion m t) := by
  obtain ⟨e, he, hem, hk⟩ := hm
  refine (((StampedLog.inOrder_perm_self _ _).filter _).trans ?_).trans
    (StampedLog.inOrder_perm_self _ _).symm
  rw [List.filter_filter]
  refine List.Perm.of_eq (List.filter_congr fun r hr => ?_)
  by_cases hrm : r.motionId = m
  · have htask : r.task = e.task := h.task r hr e he (hrm.trans hem.symm)
    simpa [hrm, htask] using hk
  · simp [hrm]

/-- The groups read are the motions under the task filter, each with the projection of its rows. -/
theorem group (hg : g ∈ grouped (allEvents task t)) :
    Shown t task g.1 ∧ projectMotion g.2 = projectMotion (eventsForMotion g.1 t) := by
  obtain ⟨hshown, hrows⟩ := Grouping.mem_groups.1 hg
  rw [shown_iff] at hshown
  refine ⟨hshown, ?_⟩
  rw [hrows]
  exact (projectMotion_perm (h.filter_allEvents hshown).symm (h.kinds g.1)).symm

end Keyed

/-- A motion under the task filter has its group. -/
theorem group_of_shown (hm : Shown t task m) :
    ∃ g ∈ grouped (allEvents task t), g.1 = m := by
  obtain ⟨g, hg, rfl⟩ := List.mem_map.1 (Grouping.mem_keys.2 (shown_iff.2 hm))
  exact ⟨g, hg, rfl⟩

/-- The ids that a failed listing names. -/
def corruptIds (task : Option String) (t : Table) : List String :=
  ((grouped (allEvents task t)).filter fun g => (projectMotion g.2).toOption.isNone).map (·.1)

theorem nodup_corruptIds : (corruptIds task t).Nodup :=
  (Grouping.nodup_keys _ _).sublist (List.filter_sublist.map _)

theorem Keyed.mem_corruptIds (h : Keyed t) : m ∈ corruptIds task t ↔ Corrupt t task m := by
  have hrows : (∀ e ∈ eventsForMotion m t, e.event ≠ .motionProposed) ↔
      ∀ e ∈ t, e.motionId = m → e.event ≠ .motionProposed := by
    simp only [mem_eventsForMotion, and_imp]
  unfold corruptIds Corrupt
  rw [List.mem_map, ← hrows]
  constructor
  · rintro ⟨g, hg, rfl⟩
    obtain ⟨hmem, hnone⟩ := List.mem_filter.1 hg
    obtain ⟨hshown, hproj⟩ := h.group hmem
    rw [hproj] at hnone
    exact ⟨hshown, projectMotion_isNone.1 hnone⟩
  · rintro ⟨hshown, hnone⟩
    obtain ⟨g, hg, rfl⟩ := group_of_shown hshown
    refine ⟨g, List.mem_filter.2 ⟨hg, ?_⟩, rfl⟩
    rw [(h.group hg).2]
    exact projectMotion_isNone.2 hnone

/-! ## The listing -/

theorem pySorted_sorted (l : List String) : (pySorted l).Pairwise (· ≤ ·) :=
  List.pairwise_insertionSort _ l

/-- A listing fails where a motion under the task filter has no proposal, and names them all. -/
theorem listing_error (h : corruptIds task t ≠ []) :
    listing status (allEvents task t) = .error (corruptHistories (pySorted (corruptIds task t))) := by
  show (require (corruptIds task t = []) _ >>= _) = _
  unfold require
  rw [if_neg h]
  rfl

/-- The motions of a listing before they are sorted. -/
def projections (status task : Option String) (t : Table) : List Motion :=
  ((grouped (allEvents task t)).filterMap fun g => (projectMotion g.2).toOption).filter
    fun motion => ∀ s ∈ status, motion.status.text = s

theorem listing_of_projections (h : corruptIds task t = []) :
    listing status (allEvents task t) = .ok (sortedMotions (projections status task t)) := by
  show (require (corruptIds task t = []) _ >>= _) = _
  unfold require
  rw [if_pos h]
  rfl

theorem toOption_eq_some {ε α : Type} {r : Except ε α} {a : α} :
    r.toOption = some a ↔ r = .ok a := by
  cases r <;> simp [Except.toOption]

theorem Keyed.mem_projections (h : Keyed t) :
    motion ∈ projections status task t ↔ Listed t status task motion := by
  unfold projections Listed
  rw [List.mem_filter, List.mem_filterMap, decide_eq_true_eq]
  constructor
  · rintro ⟨⟨g, hg, hproj⟩, hs⟩
    obtain ⟨hshown, hrows⟩ := h.group hg
    exact ⟨g.1, hshown, hrows ▸ toOption_eq_some.1 hproj, hs⟩
  · rintro ⟨m, hshown, hproj, hs⟩
    obtain ⟨g, hg, rfl⟩ := group_of_shown hshown
    exact ⟨⟨g, hg, toOption_eq_some.2 ((h.group hg).2.trans hproj)⟩, hs⟩

/-- One motion for each id. -/
theorem Keyed.nodup_projections (h : Keyed t) :
    ((projections status task t).map (·.motionId)).Nodup := by
  have hsub : (((grouped (allEvents task t)).filterMap fun g => (projectMotion g.2).toOption).map
      (·.motionId)).Sublist ((grouped (allEvents task t)).map (·.1)) := by
    apply Grouping.sublist_keys
    intro g hg motion hproj
    rw [Option.mem_def, toOption_eq_some, (h.group hg).2] at hproj
    exact projectMotion_motionId hproj
  exact ((Grouping.nodup_keys _ _).sublist hsub).sublist (List.filter_sublist.map _)

/-- A successful listing has the motions under both filters, each once, strictly sorted. -/
structure IsListing (t : Table) (status task : Option String) (motions : List Motion) : Prop where
  sorted : motions.Pairwise (·.key < ·.key)
  ids : (motions.map (·.motionId)).Nodup
  mem : ∀ motion, motion ∈ motions ↔ Listed t status task motion

theorem Keyed.isListing (h : Keyed t) (status task : Option String) :
    IsListing t status task (sortedMotions (projections status task t)) := by
  have hperm : (sortedMotions (projections status task t)).Perm (projections status task t) :=
    List.perm_insertionSort _ _
  have hids : ((sortedMotions (projections status task t)).map (·.motionId)).Nodup :=
    (hperm.map _).nodup_iff.2 h.nodup_projections
  refine ⟨?_, hids, fun motion => hperm.mem_iff.trans h.mem_projections⟩
  have hle : (sortedMotions (projections status task t)).Pairwise (·.key ≤ ·.key) := by
    have : IsTrans Motion (fun a b => a.key ≤ b.key) := ⟨fun _ _ _ => le_trans⟩
    have : Std.Total (fun a b : Motion => a.key ≤ b.key) := ⟨fun a b => le_total a.key b.key⟩
    exact List.pairwise_insertionSort (fun a b : Motion => a.key ≤ b.key) _
  have hne : (sortedMotions (projections status task t)).Pairwise (·.motionId ≠ ·.motionId) :=
    List.pairwise_map.1 hids
  refine (hle.and hne).imp fun hab => lt_of_le_of_ne hab.1 fun hkey => hab.2 ?_
  exact congrArg (fun k : Stamp => (ofLex k).2) hkey

/-- Without a status filter each motion id has exactly one motion. -/
theorem IsListing.existsUnique {motions : List Motion} (h : IsListing t none task motions)
    (hsound : ¬ ∃ m, Corrupt t task m) (hm : Shown t task m) :
    ∃! motion, motion ∈ motions ∧ motion.motionId = m := by
  have hproposed : ∃ e ∈ t, e.motionId = m ∧ e.event = .motionProposed := by
    by_contra hnone
    push Not at hnone
    exact hsound ⟨m, hm, hnone⟩
  obtain ⟨e, he, hem, hk⟩ := hproposed
  obtain ⟨motion, hproj, hid⟩ := projectMotion_eventsForMotion_ok he hem hk
  have hmem : motion ∈ motions := (h.mem motion).2 ⟨m, hm, hproj, by simp⟩
  refine ⟨motion, ⟨hmem, hid⟩, ?_⟩
  rintro motion' ⟨hmem', hid'⟩
  exact List.inj_on_of_nodup_map h.ids hmem' hmem (hid'.trans hid.symm)

/-- The two filters and the order settle a listing. -/
theorem IsListing.unique {motions motions' : List Motion} (h : IsListing t status task motions)
    (h' : IsListing t status task motions') : motions = motions' := by
  have hperm : motions.Perm motions' := by
    rw [List.perm_ext_iff_of_nodup (List.Nodup.of_map _ h.ids) (List.Nodup.of_map _ h'.ids)]
    exact fun motion => (h.mem motion).trans (h'.mem motion).symm
  refine hperm.eq_of_pairwise ?_ h.sorted h'.sorted
  exact fun a b _ _ hab hba => absurd hba (lt_asymm hab)

/-- The motions under both filters are those of the whole listing with that status and task. -/
theorem IsListing.filter (ht : Keyed t) {motions : List Motion} (h : IsListing t none none motions) :
    IsListing t status task (motions.filter fun motion =>
      (∀ s ∈ status, motion.status.text = s) ∧ ∀ k ∈ task, motion.task = k) := by
  refine ⟨h.sorted.filter _, h.ids.sublist (List.filter_sublist.map _), fun motion => ?_⟩
  rw [List.mem_filter, h.mem, decide_eq_true_eq]
  constructor
  · rintro ⟨⟨m, -, hproj, -⟩, hs, hk⟩
    obtain ⟨p, hp, -, -, htask⟩ := projectMotion_proposal hproj
    obtain ⟨hpt, hpm⟩ := mem_eventsForMotion.1 hp
    exact ⟨m, ⟨p, hpt, hpm, fun k hkt => htask ▸ hk k hkt⟩, hproj, hs⟩
  · rintro ⟨m, ⟨e, he, hem, hk⟩, hproj, hs⟩
    obtain ⟨p, hp, -, -, htask⟩ := projectMotion_proposal hproj
    obtain ⟨hpt, hpm⟩ := mem_eventsForMotion.1 hp
    refine ⟨⟨m, ⟨e, he, hem, by simp⟩, hproj, by simp⟩, hs, fun k hkt => ?_⟩
    rw [htask, ht.task p hpt e he (hpm.trans hem.symm)]
    exact hk k hkt

/-! ## Calls -/

variable {s s₁ : Session} {events : Table} {motions : List Motion}

theorem Keyed.corruptIds_eq_nil (h : Keyed t) :
    corruptIds task t = [] ↔ ¬ ∃ m, Corrupt t task m := by
  rw [List.eq_nil_iff_forall_not_mem, not_exists]
  exact forall_congr' fun m => not_congr h.mem_corruptIds

/-- A motion that the whole log shows without a proposal is behind every failed listing. -/
theorem corruptIds_of_all (h : Keyed t) (hall : corruptIds none t = []) :
    corruptIds task t = [] := by
  rw [h.corruptIds_eq_nil] at hall ⊢
  rintro ⟨m, ⟨e, he, hem, -⟩, hnone⟩
  exact hall ⟨m, ⟨e, he, hem, by simp⟩, hnone⟩

theorem listMotions_of_corrupt (hstatus : ValidStatus status) (hview : s.world.view = t)
    (hread : getAutonomyEvents task s = (.ok events, s₁)) (h : corruptIds task t ≠ []) :
    listMotions status task s = (.error (corruptHistories (pySorted (corruptIds task t))), s₁) := by
  obtain ⟨rfl, -⟩ := query_ok hread
  rw [listMotions_of_read hstatus hread, hview, listing_error h]

theorem listMotions_of_sound (hstatus : ValidStatus status) (hview : s.world.view = t)
    (hread : getAutonomyEvents task s = (.ok events, s₁)) (h : corruptIds task t = []) :
    listMotions status task s = (.ok (sortedMotions (projections status task t)), s₁) := by
  obtain ⟨rfl, -⟩ := query_ok hread
  rw [listMotions_of_read hstatus hread, hview, listing_of_projections h]

/-- A listing that returns has read the rows, and found no motion without a proposal. -/
theorem listMotions_ok (hstatus : ValidStatus status) (hview : s.world.view = t)
    (h : listMotions status task s = (.ok motions, s₁)) :
    corruptIds task t = [] ∧ motions = sortedMotions (projections status task t) := by
  obtain ⟨_, s₀, h₀, h₁⟩ := bind_ok.1 h
  obtain ⟨-, rfl⟩ := liftM_ok.1 h₀
  obtain ⟨events, s₂, hread, -⟩ := bind_ok.1 h₁
  by_cases hids : corruptIds task t = []
  · rw [listMotions_of_sound hstatus hview hread hids] at h
    cases h
    exact ⟨hids, rfl⟩
  · rw [listMotions_of_corrupt hstatus hview hread hids] at h
    cases h

end

theorem MotionStatus.ofText?_text (k : MotionStatus) : MotionStatus.ofText? k.text = some k := by
  cases k <;> rfl

theorem MotionStatus.text_injective : Function.Injective MotionStatus.text := fun a b h =>
  Option.some.inj ((ofText?_text a).symm.trans (h ▸ ofText?_text b))

theorem validStatus_text (k : MotionStatus) : ValidStatus (some k.text) := by
  intro s hs
  cases hs
  rw [MotionStatus.ofText?_text]
  rfl

namespace ListingSample

/-- A row of a motion of one task. -/
def row (id motionId : String) (event : AutonomyEventType) : AutonomyEvent where
  id := id
  motionId := motionId
  task := "deploy"
  declarationVersion := 1
  scope := none
  event := event
  fromPosition := .hitl
  toPosition := .hotl
  evidenceRef := ""
  evidenceSha256 := ""
  actor := "operator"
  reason := "reviewed"
  createdAt := "2026-01-01T00:00:00Z"

/-- A rejected motion beside one that lost its proposal. -/
def table : Table := [row "1" "a" .motionProposed, row "2" "b" .motionApproved,
  row "0" "a" .motionRejected]

def session : Session := ⟨⟨table, none, false, .ok [], Disk.empty⟩, Scenario.io 0⟩

end ListingSample

end PaaRuntime
