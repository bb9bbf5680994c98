import PaaRuntime.Quiet
import PaaRuntime.Walk

/-!
# When a proposal is approved

A pending proposal is approved exactly when it is `Approvable`: the checks of `approve` are all there
is. Where the service alone has written and timestamps increase in commit order, the last of them,
an equality of two queries, says that the triple has not changed since the proposal was committed.
-/

namespace PaaRuntime

open Prog

variable [Hashlib]

/-! ## A fresh approval goes through -/

/-- The ids to come are new to a table, and distinct. -/
structure FreshIds (ids : Stream' String) (t : Table) : Prop where
  new : ∀ n, ∀ e ∈ t, e.id ≠ ids.get n
  distinct : Function.Injective ids.get

section

omit [Hashlib]

variable {args : MotionArgs} {t : Table} {p : AutonomyEvent} {actor id createdAt : String}
  {kind : AutonomyEventType}

/-- The rows of an approval fit beside those of a table where the motion is pending. -/
theorem Pending.fits_approval (hp : Pending t args.motionId p) (hv : IsInt64 p.declarationVersion)
    (hk : kind ≠ .motionProposed) (hid : ∀ e ∈ t, e.id ≠ id) :
    Fits t (approvalRow args.motionId p actor args.reason kind id createdAt) := by
  refine ⟨hv, fun r hr => ⟨hid r hr, ?_⟩⟩
  rintro ⟨hm, hk'⟩
  exact hk (hk'.symm.trans (hp.alone r hr hm))

/-- The two rows of an approval fit, one after the other. -/
theorem Pending.fits_change {a : AutonomyEvent} (hp : Pending t args.motionId p)
    (hv : IsInt64 p.declarationVersion) (hid : ∀ e ∈ t, e.id ≠ id) (hida : a.id ≠ id)
    (ha : a.event = .motionApproved) : Fits (t ++ [a])
      (approvalRow args.motionId p actor args.reason .positionChanged id createdAt) := by
  refine ⟨hv, fun r hr => ?_⟩
  rcases List.mem_append.1 hr with hr | hr
  · exact (hp.fits_approval hv (by simp) hid).unique r hr
  · rw [List.mem_singleton.1 hr]
    refine ⟨hida, fun h => ?_⟩
    rw [ha] at h
    exact absurd h.2 nofun

end

section

variable {config : RuntimeConfig} {args : MotionArgs} {s : Session} {w : World} {t : Table}
  {p : AutonomyEvent} (hw : s.world = w) (hq : s.Quiet)

include hw hq

/-- The checks of `approve` pass where they hold. -/
theorem completes_approveChecks (h : Approvable config w.directory w.disk w.view p) :
    Completes 0 (approveChecks config p) s () w := by
  obtain ⟨data, hdata⟩ := h.verified
  obtain ⟨d, hd, hversion, hdeclares⟩ := h.declared
  refine (completes_tick hw hq).then fun s₁ hw₁ hq₁ _ => ?_
  refine (completes_gets hw₁ hq₁ World.disk).then fun s₂ hw₂ hq₂ _ => ?_
  refine (completes_lift hw₂ hq₂ hdata).then fun s₃ hw₃ hq₃ _ => ?_
  refine (completes_loadDeclaration hw₃ hq₃ hd).then fun s₄ hw₄ hq₄ _ => ?_
  refine (completes_require hw₄ hq₄ hversion _).then fun s₅ hw₅ hq₅ _ => ?_
  have htransition := (requireDeclaredTransition_ok (u := ())).2 hdeclares
  refine (completes_lift hw₅ hq₅ htransition).then fun s₆ hw₆ hq₆ _ => ?_
  refine (completes_getPositionChangedEventBefore hw₆ hq₆ h.version _ _).then
    fun s₇ hw₇ hq₇ _ => ?_
  refine (completes_getLatestPositionChangedEvent hw₇ hq₇ h.version).then fun s₈ hw₈ hq₈ _ => ?_
  exact completes_require hw₈ hq₈ h.baseline _

/-- The block of `approve` completes for a pending proposal that is approvable. -/
theorem completes_approveFresh (ht : w.working = some t) (hlock : w.locked = false)
    (hids : FreshIds s.io.eventIds t) (hp : Pending t args.motionId p)
    (h : Approvable config w.directory w.disk t p) (actor : String) :
    ∃ exit w', Completes 2 (approveFresh config args actor p) s exit w' := by
  rw [← World.view_of_working ht] at h
  obtain ⟨s₁, h₁, hw₁, hq₁, hids₁⟩ := completes_approveChecks hw hq h
  have hfits : ∀ createdAt, Fits t (approvalRow args.motionId p actor args.reason .motionApproved
      s₁.io.eventIds.head createdAt) := fun _ =>
    hp.fits_approval h.version (by simp) (by rw [hids₁]; exact hids.new 0)
  obtain ⟨ata, s₂, h₂, hw₂, hq₂, hids₂⟩ := completes_recordEvent hw₁ hq₁ ht hlock hfits
  have hids₂' : s₂.io.eventIds = s.io.eventIds.tail := by
    rw [hids₂, hids₁]
    rfl
  have hfits' : ∀ createdAt, Fits (t ++ [approvalRow args.motionId p actor args.reason
      .motionApproved s₁.io.eventIds.head ata]) (approvalRow args.motionId p actor args.reason
        .positionChanged s₂.io.eventIds.head createdAt) := by
    intro atc
    refine hp.fits_change h.version ?_ ?_ rfl
    · rw [hids₂']
      exact hids.new 1
    · rw [hids₂']
      show s₁.io.eventIds.head ≠ _
      rw [hids₁]
      exact hids.distinct.ne Nat.zero_ne_one
  obtain ⟨atc, s₃, h₃, hw₃, hq₃, hids₃⟩ := completes_recordEvent hw₂ hq₂ rfl hlock hfits'
  obtain ⟨s₄, h₄, hw₄, hq₄, hids₄⟩ := completes_query hw₃ hq₃ (eventsForMotion args.motionId)
  have hrows : forEach (fun kind => recordEvent (approvalRow args.motionId p actor args.reason kind))
      [.motionApproved, .positionChanged] s₁ = (.ok (), s₃) :=
    bind_ok.2 ⟨(), s₂, h₂, bind_ok.2 ⟨(), s₃, h₃, rfl⟩⟩
  have hread : (do return Exit.fellThrough (← getAutonomyEventsForMotion args.motionId) : Py Exit)
      s₃ = (.ok (.fellThrough _), s₄) := bind_ok.2 ⟨_, s₄, h₄, rfl⟩
  refine ⟨_, _, s₄, bind_ok.2 ⟨(), s₁, h₁, bind_ok.2 ⟨(), s₃, hrows, hread⟩⟩, hw₄, hq₄, ?_⟩
  rw [hids₄, hids₃, hids₂']
  rfl

/-- The block of `approve` completes for a motion that has only a proposal, which is approvable. -/
theorem completes_approveBlock_pending (ht : w.working = some t) (hlock : w.locked = false)
    (hids : FreshIds s.io.eventIds t) (hp : motionRows args.motionId t = [p])
    (hk : p.event = .motionProposed) (h : Approvable config w.directory w.disk t p)
    (actor : String) : ∃ exit w', Completes 2 (approveBlock config args actor) s exit w' := by
  have hfound : ∀ k, byEvent (eventsForMotion args.motionId t) k =
      ([p].filter (·.event = k)).head? := fun k =>
    byEvent_of_perm (.of_eq hp) (List.length_filter_le _ _)
  have hproposed : byEvent (eventsForMotion args.motionId t) .motionProposed = some p := by
    rw [hfound]
    simp [hk]
  have hrejected : byEvent (eventsForMotion args.motionId t) .motionRejected = none := by
    rw [hfound]
    simp [hk]
  have happroved : byEvent (eventsForMotion args.motionId t) .motionApproved = none := by
    rw [hfound]
    simp [hk]
  have hchanged : byEvent (eventsForMotion args.motionId t) .positionChanged = none := by
    rw [hfound]
    simp [hk]
  have hpending := Pending.of_byEvent hproposed hrejected happroved hchanged
  obtain ⟨s₁, h₁, hw₁, hq₁, hids₁⟩ := completes_query hw hq (eventsForMotion args.motionId)
  rw [World.view_of_working ht] at h₁
  have hids' : FreshIds s₁.io.eventIds t := by
    rw [hids₁]
    exact hids
  obtain ⟨exit, w', s₂, h₂, hw₂, hq₂, hids₂⟩ :=
    completes_approveFresh hw₁ hq₁ ht hlock hids' hpending h actor
  refine ⟨exit, w', s₂, ?_, hw₂, hq₂, by rw [hids₂, hids₁]; rfl⟩
  refine bind_ok.2 ⟨_, s₁, h₁, bind_ok.2 ⟨p, s₁, liftM_ok.2 ⟨requireSome_ok.2 hproposed, rfl⟩, ?_⟩⟩
  simp only [hrejected, happroved, hchanged]
  exact h₂

end

/-! ## Over what the service has written -/

/-- A change of a proposal's triple was committed after it. -/
def ChangedSince (t : Table) (p : AutonomyEvent) : Prop :=
  ∃ t₁ t₂, t = t₁ ++ p :: t₂ ∧ ∃ e ∈ t₂, e.event = .positionChanged ∧ e.triple = p.triple

/-- The grounds for approving a proposal: its evidence verifies, the declaration as it stands is of
its version and declares its transition, and its triple has not changed since. -/
structure Grounds (config : RuntimeConfig) (s : Session) (p : AutonomyEvent) : Prop where
  evidence : ∃ data, verifyEvidence config.evidenceRoot s.world.disk p.evidenceRef
    p.evidenceSha256 = .ok data
  declaration : ∃ d, getPaaDeclaration config s.world.directory p.task = .ok d ∧
    d.version = p.declarationVersion ∧ d.Declares p.fromPosition p.toPosition
  unchanged : ¬ ChangedSince s.committed p

section

variable {config₀ config : RuntimeConfig} {directory : Directory} {W : System} {args : MotionArgs}
  {s : Session} {p : AutonomyEvent}

/-- Over such a table the checks of `approve` are the grounds for approving. -/
theorem System.approvable_iff (config : RuntimeConfig)
    (h : Run (System.next config₀) System.ServiceOnly (System.init directory) W)
    (hclock : W.shared.table.Pairwise (·.createdAt < ·.createdAt)) (hs : s.committed = W.shared.table)
    (hp : p ∈ s.committed) (hk : p.event = .motionProposed) :
    Approvable config s.world.directory s.world.disk s.committed p ↔ Grounds config s p := by
  have hfits : StampedLog.Grown Fits s.committed := hs ▸ System.fits_reach h
  rw [← hs] at hclock
  obtain ⟨t₁, t₂, ht⟩ := List.append_of_mem hp
  have hbaseline := baseline_iff_none_since (t := p.triple) ht hk hclock hfits
  have hsince : positionChanges p.triple t₂ = [] ↔ ¬ ChangedSince s.committed p := by
    have hids : s.committed.Nodup :=
      ((hfits.mono fun t e he b hb => (he.unique b hb).1).pairwise).imp fun h heq => h (by rw [heq])
    constructor
    · rintro hnone ⟨u₁, u₂, hu, e, he, hek, het⟩
      rw [ht] at hids
      obtain ⟨-, hcons, hapart⟩ := List.nodup_append.1 hids
      have hp₁ : p ∉ t₁ := fun hp₁ => hapart p hp₁ p List.mem_cons_self rfl
      have hp₂ : p ∉ t₂ := (List.nodup_cons.1 hcons).1
      obtain ⟨-, -, rfl⟩ := (List.append_cons_inj_of_notMem hp₁ hp₂).1 (ht.symm.trans hu)
      exact absurd (mem_positionChanges.2 ⟨he, het, hek⟩) (by rw [hnone]; exact List.not_mem_nil)
    · intro hnot
      refine List.eq_nil_iff_forall_not_mem.2 fun e he => hnot ?_
      obtain ⟨he, het, hek⟩ := mem_positionChanges.1 he
      exact ⟨t₁, t₂, ht, e, he, hek, het⟩
  constructor
  · rintro ⟨hverified, hdeclared, -, hb⟩
    exact ⟨hverified, hdeclared, hsince.1 (hbaseline.1 hb)⟩
  · rintro ⟨hverified, hdeclared, hnot⟩
    exact ⟨hverified, hdeclared, (hfits t₁ p t₂ ht).version, hbaseline.2 (hsince.2 hnot)⟩

end

/-- A promotion has been proposed; all later ids are longer and longer. -/
def Scenario.proposed : Session :=
  let s := (after (calls 0 (.propose ⟨"t", none, "hotl", "file", none, none⟩) 0 11)).shared.session
    1 (io 11)
  { s with io := { s.io with eventIds := fun n => String.ofList (List.replicate (n + 3) 'a') } }

omit [Hashlib] in
theorem Scenario.proposed_heard :
    Heard Scenario.config ⟨text 9 0, "fine", none⟩ Scenario.proposed where
  quiet := ⟨fun _ => rfl, fun _ => rfl⟩
  closed := by rfl
  unlocked := by rfl
  reason := by decide
  actor := ⟨"operator", by rfl⟩

omit [Hashlib] in
theorem Scenario.proposed_freshIds :
    FreshIds Scenario.proposed.io.eventIds Scenario.proposed.committed := by
  have hlength : ∀ e ∈ Scenario.proposed.committed, e.id.toList.length = 2 := by decide +kernel
  have hids : ∀ n, (Scenario.proposed.io.eventIds.get n).toList.length = n + 3 := by
    intro n
    show (String.ofList (List.replicate (n + 3) 'a')).toList.length = n + 3
    rw [String.toList_ofList, List.length_replicate]
  refine ⟨fun n e he heq => ?_, fun n k hnk => ?_⟩
  · have h := hlength e he
    rw [heq, hids] at h
    omega
  · have h := hids n
    rw [hnk, hids] at h
    omega

end PaaRuntime
