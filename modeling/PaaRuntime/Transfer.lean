import Mathlib.Data.List.Perm.Basic
import PaaRuntime.Demotions
import PaaRuntime.Quiet
import PaaRuntime.RowOrder

/-!
# Export and import

The events of a store, exported by `to_json_dict` and imported in any order into an empty store, give
one that nobody can tell from the first (`System.export_import`): whatever is asked of the two, and
whatever clients do from then on.
-/

namespace PaaRuntime

open Prog

/-! ## What is asked of a store -/

/-- The readers of two sessions answer alike, and what is built on them. -/
structure SameAnswers (s s' : Session) : Prop where
  forMotion : ∀ m, (getAutonomyEventsForMotion m s).1 = (getAutonomyEventsForMotion m s').1
  latest : ∀ Y, (getLatestPositionChangedEvent Y s).1 = (getLatestPositionChangedEvent Y s').1
  before : ∀ Y createdAt eventId, (getPositionChangedEventBefore Y createdAt eventId s).1 =
    (getPositionChangedEventBefore Y createdAt eventId s').1
  all : ∀ task, (getAutonomyEvents task s).1 = (getAutonomyEvents task s').1
  resolve : ∀ config task scope, (resolveCurrentPosition config task scope s).1 =
    (resolveCurrentPosition config task scope s').1
  show_ : ∀ config task scope, (PaaRuntime.show_ config task scope s).1 =
    (PaaRuntime.show_ config task scope s').1
  motions : ∀ status task, (listMotions status task s).1 = (listMotions status task s').1

theorem SameSession.answers {s s' : Session} (h : SameSession s s') : SameAnswers s s' where
  forMotion m := (orderFree_getAutonomyEventsForMotion m s s' h).1
  latest Y := (orderFree_getLatestPositionChangedEvent Y s s' h).1
  before Y createdAt eventId := (orderFree_getPositionChangedEventBefore Y createdAt eventId s s' h).1
  all task := (orderFree_getAutonomyEvents task s s' h).1
  resolve config task scope := (orderFree_resolveCurrentPosition config task scope s s' h).1
  show_ config task scope := (orderFree_resolveCurrentPosition config task scope s s' h).1
  motions status task := (orderFree_listMotions status task s s' h).1

/-- Nobody can tell two tables apart: over either of them, with the same declarations, evidence and
surroundings, any clients get the same results and raise the same exceptions, whatever they call
and however their steps interleave, and at any time whatever is asked is answered alike. -/
def Indistinguishable [Hashlib] (t t' : Table) : Prop :=
  ∀ (config : RuntimeConfig) (directory : Directory) (disk : Disk) (actions : List Action),
    (actions.foldl (System.next config) (System.opened t directory disk)).thread =
      (actions.foldl (System.next config) (System.opened t' directory disk)).thread ∧
    ∀ i io, SameAnswers
      ((actions.foldl (System.next config) (System.opened t directory disk)).shared.session i io)
      ((actions.foldl (System.next config) (System.opened t' directory disk)).shared.session i io)

theorem SameRows.indistinguishable [Hashlib] {t t' : Table} (h : SameRows t t') :
    Indistinguishable t t' := by
  intro config directory disk actions
  have hopened : System.Same (System.opened t directory disk) (System.opened t' directory disk) :=
    ⟨⟨h, rfl, rfl, rfl⟩, rfl⟩
  have hsame := @System.same_run _ config _ _ hopened actions
  exact ⟨hsame.thread, fun i io => (hsame.shared.session i io).answers⟩

/-! ## What is imported -/

section

variable {t written : Table}

/-- Rows that fit one after the other are those that each fit the version and do not collide. -/
theorem fitsAll_of_pairwise : ∀ {t written : Table},
    (∀ e ∈ written, IsInt64 e.declarationVersion) →
    (t ++ written).Pairwise (fun r e => r.id ≠ e.id ∧ ¬(r.motionId = e.motionId ∧ r.event = e.event)) →
    FitsAll t written
  | _, [], _, _ => trivial
  | t, e :: written, hv, hp => by
    refine ⟨⟨hv e List.mem_cons_self, fun r hr => ?_⟩, fitsAll_of_pairwise
      (fun r hr => hv r (List.mem_cons_of_mem e hr)) ?_⟩
    · exact (List.pairwise_append.1 hp).2.2 r hr e List.mem_cons_self
    · rw [← List.append_cons]
      exact hp

/-- The rows of a reached table fit one after the other in any order. -/
theorem fitsAll_of_perm (h : StampedLog.Grown Fits t) (hp : written.Perm t) : FitsAll [] written := by
  refine fitsAll_of_pairwise (fun e he => ?_) ?_
  · obtain ⟨t₁, t₂, rfl⟩ := List.append_of_mem (hp.mem_iff.1 he)
    exact (h t₁ e t₂ rfl).version
  · have hpairwise := StampedLog.Grown.pairwise (h.mono fun _ _ he => he.unique)
    rw [List.nil_append]
    refine (hp.pairwise_iff fun hne => ?_).2 hpairwise
    exact ⟨hne.1.symm, fun heq => hne.2 ⟨heq.1.symm, heq.2.symm⟩⟩

/-- The rows go in one after the other. -/
theorem completes_forEach_importEvent : ∀ {written rows : Table} {s : Session} {w : World},
    s.world = w → s.Quiet → w.working = some rows → w.locked = false → FitsAll rows written →
    Completes 0 (forEach importEvent (written.map fun e => .ok e.toJsonDict)) s ()
      (w.setWorking (some (rows ++ written)))
  | [], rows, s, w, hw, hq, hrows, _, _ => by
    rw [List.append_nil, ← hrows]
    exact completes_pure hw hq ()
  | e :: written, rows, s, w, hw, hq, hrows, hlock, hfits => by
    have hinsert : Completes 0 (importEvent (.ok e.toJsonDict)) s ()
        (w.setWorking (some (rows ++ [e]))) :=
      (completes_lift hw hq rfl).then fun s₁ hw₁ hq₁ _ =>
        (completes_lift hw₁ hq₁ (columns_ok.2 rfl)).then fun s₂ hw₂ hq₂ _ =>
          completes_insertAutonomyEvent hw₂ hq₂ hrows hlock hfits.1
    rw [List.append_cons]
    refine hinsert.then fun s₁ hw₁ hq₁ _ => ?_
    have hrest := completes_forEach_importEvent hw₁ hq₁ rfl hlock hfits.2
    exact hrest

/-- Rows that fit one after the other are imported, and nothing else is there. -/
theorem importEvents_of_fits {s : Session} (hq : s.Quiet) (hempty : s.committed = [])
    (hclosed : s.world.working = none) (hlock : s.world.locked = false)
    (hfits : FitsAll [] written) :
    ∃ s', importEvents (written.map fun e => .ok e.toJsonDict) s = (.ok (), s') ∧
      s'.committed = written ∧ s'.world.working = none := by
  obtain ⟨s₁, h₁, hw₁, hq₁, -⟩ := @completes_begin s _ rfl hq false hclosed hlock
  rw [show s.world.committed = [] from hempty] at hw₁
  have hbody := completes_forEach_importEvent hw₁ hq₁ rfl hlock hfits
  obtain ⟨s₂, h₂, hw₂, -, -⟩ := hbody.closing
  refine ⟨s₂, bind_ok.2 ⟨(), s₁, h₁, h₂⟩, ?_, ?_⟩
  · show s₂.world.committed = written
    rw [hw₂]
    rfl
  · rw [hw₂]
    rfl

end

namespace System

variable [Hashlib] {config : RuntimeConfig} {W : System} {directory : Directory}

/-- **Export and import are faithful.** The events of a reached store, exported and imported in any
order into an empty store, give one that nobody can tell from the first. -/
theorem export_import (h : Reach config (init directory) W) {s₀ s₁ : Session} {events : Table}
    (hview : s₀.world.view = W.shared.table) (hread : getAutonomyEvents none s₀ = (.ok events, s₁))
    {archive : List EventMapping} (harchive : archive.Perm (events.map AutonomyEvent.toJsonDict))
    {s : Session} (hq : s.Quiet) (hempty : s.committed = []) (hclosed : s.world.working = none)
    (hlock : s.world.locked = false) :
    ∃ s', importEvents (archive.map .ok) s = (.ok (), s') ∧ s'.world.working = none ∧
      Indistinguishable W.shared.table s'.committed := by
  have hgrown := fits_reach h
  -- what is read is the table in the order of the stamps, and the archive permutes its exports
  have hevents : events.Perm W.shared.table := by
    obtain ⟨rfl, -⟩ := query_ok hread
    rw [hview]
    refine (StampedLog.inOrder_perm_self _ _).trans (List.Perm.of_eq ?_)
    exact List.filter_eq_self.2 fun e _ => by simp
  obtain ⟨written, rfl, hwritten⟩ : ∃ written : Table,
      archive = written.map AutonomyEvent.toJsonDict ∧ written.Perm events := by
    have hcomp := congrFun (congrFun (List.eq_map_comp_perm AutonomyEvent.toJsonDict) archive) events
    obtain ⟨written, hw, hp⟩ := hcomp.mpr harchive
    exact ⟨written, hw, hp⟩
  have hperm : written.Perm W.shared.table := hwritten.trans hevents
  obtain ⟨s', hrun, hcommitted, hworking⟩ :=
    importEvents_of_fits hq hempty hclosed hlock (fitsAll_of_perm hgrown hperm)
  rw [List.map_map]
  refine ⟨s', hrun, hworking, ?_⟩
  rw [hcommitted]
  exact SameRows.indistinguishable ⟨hperm.symm, List.pairwise_map.2 (ids_of_grown hgrown)⟩

end System

/-- The two cycles of the scenario, archived from the last event to the first. -/
theorem System.export_import_cycle :
    ∃ s', importEvents ((((allEvents none (Scenario.after Scenario.cycle).shared.table).map
        AutonomyEvent.toJsonDict).reverse).map .ok)
          ⟨⟨[], none, false, .ok [Scenario.declaration], Disk.empty⟩, Scenario.io 0⟩ = (.ok (), s') ∧
      s'.world.working = none ∧
      @Indistinguishable Scenario.hashing (Scenario.after Scenario.cycle).shared.table s'.committed := by
  have hview := Shared.session_view (Scenario.after Scenario.cycle).shared 3 (Scenario.io 30)
  have hread := query_of_quiet (s := (Scenario.after Scenario.cycle).shared.session 3 (Scenario.io 30))
    rfl (allEvents none)
  rw [hview] at hread
  exact @System.export_import Scenario.hashing Scenario.config _ _
    (Run.foldl _ Scenario.cycle fun _ _ _ => trivial) _ _ _ hview hread _ (List.reverse_perm _) _
    ⟨fun _ => rfl, fun _ => rfl⟩ rfl rfl rfl

end PaaRuntime
