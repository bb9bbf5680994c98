import PaaRuntime.DeclarationRules
import PaaRuntime.Walk

/-!
# Resolutions and their audit

`resolve_position` is what a caller that enforces autonomy goes by: the position in force at one moment,
and the event that put it in force. A resolution that was kept can be audited at any later time, after
whatever the clients have done since (`System.resolution_audit`). Of two resolutions, the ids of their
events tell whether authority has moved between them (`System.resolution_fences`). And the position that
is resolved is always one of the declaration's, so that its placement can be looked up
(`System.placement_in_force`).
-/

namespace PaaRuntime

open Prog

/-- The partition of authority that was resolved. -/
def PositionResolution.triple (r : PositionResolution) : Triple :=
  ⟨r.task, r.declarationVersion, r.scope⟩

/-- The rows bear a resolution under a declaration out: the triple has not changed and the position is
the initial one, or it is that of the latest change, which is named. -/
inductive PositionResolution.BorneOut (d : PaaTaskDeclaration) (t : Table) (r : PositionResolution) :
    Prop
  | initial (hsource : r.source = .declarationInitial) (hid : r.sourceEventId = none)
      (hnone : positionChanges r.triple t = []) (hposition : r.position = d.initialPosition)
  | event (e : AutonomyEvent) (hsource : r.source = .positionEvent)
      (hid : r.sourceEventId = some (.value e.id)) (hmem : e ∈ positionChanges r.triple t)
      (hlatest : ∀ b ∈ positionChanges r.triple t, b.stamp ≤ e.stamp)
      (hposition : r.position = e.toPosition)

section

variable {config : RuntimeConfig} {task : String} {scope : Option String} {s s' : Session}
  {r r' : PositionResolution} {t more : Table}

/-- What `resolve_position` returns. -/
theorem resolvePosition_ok (h : resolvePosition config task scope s = (.ok r, s')) :
    ∃ d, getPaaDeclaration config s.world.directory task = .ok d ∧ d.Permits scope ∧
      r.triple = d.triple scope ∧ r.position = positionIn s.world.view d scope ∧
      r.sourceEventId = (latestPositionChanged r.triple s.world.view).map (.value ·.id) ∧
      r.BorneOut d s.world.view := by
  unfold resolvePosition at h
  rw [map_run] at h
  rcases hr : resolveCurrentPosition config task scope s with ⟨e | resolved, s₁⟩ <;> rw [hr] at h <;>
    cases h
  obtain ⟨-, d, hd, hpermits, -, rfl⟩ := resolveCurrentPosition_ok hr
  refine ⟨d, hd, hpermits, rfl, rfl, ?_⟩
  rcases hl : latestPositionChanged (d.triple scope) s.world.view with _ | e
  · refine ⟨?_, .initial rfl rfl (StampedLog.latest_eq_none.1 hl) rfl⟩
    exact (congrArg (Option.map fun e : AutonomyEvent => Bound.value e.id) hl).symm
  · refine ⟨?_, .event e rfl rfl (StampedLog.latest_mem hl) (fun b hb => ?_) rfl⟩
    · exact (congrArg (Option.map fun e : AutonomyEvent => Bound.value e.id) hl).symm
    · exact StampedLog.le_latest hl hb

/-! ## Two tables -/

theorem Table.eq_of_id (hids : t.Pairwise (·.id ≠ ·.id)) {a b : AutonomyEvent} (ha : a ∈ t) (hb : b ∈ t)
    (hid : a.id = b.id) : a = b := by
  have hnodup : (t.map (·.id)).Nodup := List.pairwise_map.2 hids
  exact List.inj_on_of_nodup_map hnodup ha hb hid

/-- The latest change of a triple is the same one, by its id, exactly when each change that has come
since is stamped below one that was there. -/
theorem latest_same_iff (hids : (t ++ more).Pairwise (·.id ≠ ·.id)) (k : Triple) :
    (latestPositionChanged k (t ++ more)).map (·.id) = (latestPositionChanged k t).map (·.id) ↔
      ∀ e ∈ positionChanges k more, ∃ b ∈ positionChanges k t, e.stamp < b.stamp := by
  constructor
  · intro hsame e he
    have hnew : e ∈ positionChanges k (t ++ more) := by
      rw [positionChanges_append]
      exact List.mem_append_right _ he
    rcases hl : latestPositionChanged k (t ++ more) with _ | m
    · rw [StampedLog.latest_eq_none.1 hl] at hnew
      cases hnew
    · rw [hl] at hsame
      obtain ⟨b, hb, hid⟩ := Option.map_eq_some_iff.1 hsame.symm
      have hb := StampedLog.latest_mem hb
      obtain ⟨hbt, -⟩ := mem_positionChanges.1 hb
      obtain ⟨het, -⟩ := mem_positionChanges.1 he
      have hmt := (mem_positionChanges.1 (StampedLog.latest_mem hl)).1
      obtain rfl : b = m := Table.eq_of_id hids (List.mem_append_left more hbt) hmt hid
      refine ⟨b, hb, lt_of_le_of_ne (StampedLog.le_latest hl hnew) fun hstamp => ?_⟩
      exact (List.pairwise_append.1 hids).2.2 b hbt e het
        (congrArg (fun p : Stamp => (ofLex p).2) hstamp).symm
  · intro h
    unfold latestPositionChanged
    rw [positionChanges_append, StampedLog.latest_append_of_exceeded h]

/-- Where timestamps increase, exactly when the triple has not changed since. -/
theorem exceeded_iff_of_increasing (hclock : (t ++ more).Pairwise (·.createdAt < ·.createdAt))
    (k : Triple) :
    (∀ e ∈ positionChanges k more, ∃ b ∈ positionChanges k t, e.stamp < b.stamp) ↔
      positionChanges k more = [] := by
  constructor
  · intro h
    rw [List.eq_nil_iff_forall_not_mem]
    intro e he
    obtain ⟨b, hb, hlt⟩ := h e he
    have hbt := (mem_positionChanges.1 hb).1
    have het := (mem_positionChanges.1 he).1
    exact lt_asymm hlt ((List.pairwise_append.1 (stamp_increasing hclock)).2.2 b hbt e het)
  · rintro h e he
    rw [h] at he
    cases he

end

/-! ## Over runs -/

namespace System

variable [Hashlib] {config : RuntimeConfig} {directory : Directory} {W W' : System} {task : String}
  {scope : Option String} {i j : ℕ} {io io' : Io} {r r' : PositionResolution}

/-- What a client would be told when it resolves a position. -/
def Obtains (config : RuntimeConfig) (W : System) (i : ℕ) (io : Io) (task : String)
    (scope : Option String) (r : PositionResolution) : Prop :=
  (resolvePosition config task scope (W.shared.session i io)).1 = .ok r

omit [Hashlib] in
theorem Obtains.spec (h : Obtains config W i io task scope r) :
    ∃ d, getPaaDeclaration config W.shared.directory task = .ok d ∧ d.Permits scope ∧
      r.triple = d.triple scope ∧ r.position = positionIn W.shared.table d scope ∧
      r.sourceEventId = (latestPositionChanged r.triple W.shared.table).map (.value ·.id) ∧
      r.BorneOut d W.shared.table := by
  have hrun : resolvePosition config task scope (W.shared.session i io) =
      (.ok r, (resolvePosition config task scope (W.shared.session i io)).2) := Prod.ext h rfl
  have hspec := resolvePosition_ok hrun
  rwa [Shared.session_view] at hspec

/-- **A resolution can be audited.** Whatever is committed, imported, replaced or lost afterwards, the
resolution stays borne out by the rows that there were, and its event, if it names one, is found under
its id: one row, a change of the resolved triple to the resolved position. -/
theorem resolution_audit (h : Reach config (init directory) W) (h' : Reach config W W')
    (hr : Obtains config W i io task scope r) :
    ∃ d more, getPaaDeclaration config W.shared.directory task = .ok d ∧
      r.triple = d.triple scope ∧ W'.shared.table = W.shared.table ++ more ∧
      r.BorneOut d W.shared.table ∧
      ∀ id, r.sourceEventId = some (.value id) → ∃! e, (e ∈ W'.shared.table ∧ e.id = id) ∧
        e.event = .positionChanged ∧ e.triple = r.triple ∧ e.toPosition = r.position := by
  obtain ⟨d, hd, -, htriple, -, -, hborne⟩ := hr.spec
  obtain ⟨more, hmore⟩ := run_table (fun W a _ => loadsOnly_true W a) (inv_reach h) h'
  have hids := ids_of_grown (fits_reach (h.trans h'))
  refine ⟨d, more, hd, htriple, hmore, hborne, fun id hid => ?_⟩
  cases hborne with
  | initial _ hnone =>
    rw [hnone] at hid
    cases hid
  | event e _ hevent hmem _ hposition =>
    obtain rfl : e.id = id := Bound.value.inj (Option.some.inj (hevent.symm.trans hid))
    obtain ⟨het, htriple', hk⟩ := mem_positionChanges.1 hmem
    have het' : e ∈ W'.shared.table := by
      rw [hmore]
      exact List.mem_append_left more het
    refine ⟨e, ⟨⟨het', rfl⟩, hk, htriple', hposition.symm⟩, ?_⟩
    rintro b ⟨⟨hb, hbid⟩, -⟩
    exact Table.eq_of_id hids hb het' hbid

omit [Hashlib] in
theorem sourceEventId_eq_iff (h : Obtains config W i io task scope r)
    (h' : Obtains config W' j io' task scope r') (hsame : r'.triple = r.triple) :
    r'.sourceEventId = r.sourceEventId ↔
      (latestPositionChanged r.triple W'.shared.table).map (·.id) =
        (latestPositionChanged r.triple W.shared.table).map (·.id) := by
  have hinj : Function.Injective (Bound.value : String → PaaRuntime.Bound String) := fun _ _ => Bound.value.inj
  obtain ⟨-, -, -, -, -, hid, -⟩ := h.spec
  obtain ⟨-, -, -, -, -, hid', -⟩ := h'.spec
  rw [hid, hid', hsame]
  have hmap : ∀ o : Option AutonomyEvent,
      o.map (fun e => Bound.value e.id) = (o.map (·.id)).map Bound.value := fun o => by
    rw [Option.map_map]
    rfl
  rw [hmap, hmap, (Option.map_injective hinj).eq_iff]

/-- **A resolution is a fence.** Of two resolutions of one triple, the later names the same event as the
earlier, or none as well, exactly when every change of the triple committed between is stamped below one
committed before; with timestamps that increase, exactly when none was committed. Where they name the
same event they name the same position. -/
theorem resolution_fences (h : Reach config (init directory) W) (h' : Reach config W W')
    (hr : Obtains config W i io task scope r) (hr' : Obtains config W' j io' task scope r')
    (hsame : r'.triple = r.triple) :
    ∃ more, W'.shared.table = W.shared.table ++ more ∧
      (r'.sourceEventId = r.sourceEventId ↔
        ∀ e ∈ positionChanges r.triple more, ∃ b ∈ positionChanges r.triple W.shared.table,
          e.stamp < b.stamp) ∧
      (W'.shared.table.Pairwise (·.createdAt < ·.createdAt) →
        (r'.sourceEventId = r.sourceEventId ↔ positionChanges r.triple more = [])) ∧
      (r'.sourceEventId = r.sourceEventId → r.source = .positionEvent →
        r'.position = r.position) := by
  obtain ⟨more, hmore⟩ := run_table (fun W a _ => loadsOnly_true W a) (inv_reach h) h'
  have hids := ids_of_grown (fits_reach (h.trans h'))
  have hiff := sourceEventId_eq_iff hr hr' hsame
  rw [hmore] at hids hiff
  have hfence := hiff.trans (latest_same_iff hids r.triple)
  refine ⟨more, hmore, hfence, fun hclock => ?_, fun heq hsource => ?_⟩
  · rw [hmore] at hclock
    exact hfence.trans (exceeded_iff_of_increasing hclock r.triple)
  · obtain ⟨d, -, -, -, -, -, hborne⟩ := hr.spec
    obtain ⟨d', -, -, -, -, -, hborne'⟩ := hr'.spec
    cases hborne with
    | initial hinitial =>
      rw [hinitial] at hsource
      cases hsource
    | event e _ hid hmem _ hposition =>
      rw [hid] at heq
      cases hborne' with
      | initial _ hnone =>
        rw [hnone] at heq
        cases heq
      | event e' _ hid' hmem' _ hposition' =>
        rw [hid'] at heq
        have hid : e'.id = e.id := Bound.value.inj (Option.some.inj heq)
        have he := (mem_positionChanges.1 hmem).1
        have he' := (mem_positionChanges.1 hmem').1
        rw [hmore] at he'
        obtain rfl : e' = e := Table.eq_of_id hids he' (List.mem_append_left more he) hid
        rw [hposition, hposition']

/-! ## Placements -/

/-- A declaration that the loader builds, the one of its task and version. -/
structure Accepted (content : Content) (registry : List ProducerRegistration)
    (d : PaaTaskDeclaration) : Prop where
  consistent : Consistent content d
  built : ∃ raw path, buildDeclaration raw path registry = .ok d

omit [Hashlib] in
/-- The positions that an accepted declaration names have placements. -/
theorem Accepted.placement {content : Content} {registry : List ProducerRegistration}
    {d : PaaTaskDeclaration} (h : Accepted content registry d) {p : AutonomyPosition}
    (hp : p = d.initialPosition ∨ ∃ q, d.Declares q p) :
    ∃ placement, d.positionPolicy.placement p = .ok placement := by
  obtain ⟨raw, path, hbuilt⟩ := h.built
  have hsound := sound_of_buildDeclaration hbuilt
  have hdeclares : d.positionPolicy.declares p = true := by
    rcases hp with rfl | ⟨q, ⟨-, rfl⟩ | ⟨-, rfl⟩⟩
    · exact hsound.initialPosition
    · exact hsound.promotion.2.2
    · exact hsound.demotion.2.2
  obtain ⟨placement, hplacement⟩ := Option.isSome_iff_exists.1 hdeclares
  refine ⟨placement, ?_⟩
  unfold PaaPositionPolicy.placement
  rw [hplacement]

/-- What a call has proposed, it has proposed under a declaration that satisfies `D`. -/
theorem known_of_proposed {D : PaaTaskDeclaration → Prop} {sh : Shared} {c : Client} {m : String}
    {d : PaaTaskDeclaration} {data : Bytes} (hc : c.Knows D i sh) (h : c.Proposed m d data) :
    D d := by
  cases h with
  | propose =>
    have hready : Draft.Ready D _ sh.disk _ _ := hc
    exact hready.loaded.known
  | demote =>
    obtain ⟨hloaded, -⟩ := hc
    exact hloaded.known

/-- Every change was declared by a declaration that satisfies `D`. -/
theorem change_declared {D : PaaTaskDeclaration → Prop} (hinv : Inv D W) (hW : Written W)
    {e : AutonomyEvent} (he : e ∈ W.shared.table) :
    ∃ d, D d ∧ e.triple = d.triple e.scope ∧ d.Declares e.fromPosition e.toPosition := by
  obtain ⟨p, d, data, hp, horigin⟩ := hW.motions e he
  obtain ⟨k, hk⟩ := horigin.client
  have hid := hp.identity (mem_motionRows.2 ⟨he, rfl⟩)
  have htriple := AutonomyEvent.triple_eq_of_identity_eq hid
  have hscope : e.scope = p.scope := congrArg Triple.scope htriple
  have hfrom : e.fromPosition = p.fromPosition := congrArg Identity.fromPosition hid
  have hto : e.toPosition = p.toPosition := congrArg Identity.toPosition hid
  refine ⟨d, known_of_proposed (hinv.own k).knows hk, ?_, ?_⟩
  · rw [htriple, hscope]
    exact horigin.triple
  · rw [hfrom, hto]
    exact horigin.declares

/-- **A position in force has a placement.** In every state that any interleaving of calls of the service
reaches over directories that the loader accepts, the position that is resolved for a task and a scope is
one that the task's declaration has a placement for. -/
theorem placement_in_force {content : Content} {registry : List ProducerRegistration}
    (hdirectory : directory.All (Accepted content registry))
    (h : Run (next config)
      (fun W a => ServiceOnly W a ∧ LoadsOnly (Accepted content registry) W a) (init directory) W)
    (hr : Obtains config W i io task scope r) :
    ∃ d p, getPaaDeclaration config W.shared.directory task = .ok d ∧
      d.positionPolicy.placement r.position = .ok p := by
  have hstate : Inv (Accepted content registry) W ∧ Written W := by
    refine h.invariant (P := fun W => Inv (Accepted content registry) W ∧ Written W) ?_
      ⟨inv_init hdirectory, written_init directory⟩
    rintro V a ⟨ha, ha'⟩ ⟨hV, hwritten⟩
    exact ⟨inv_next hV ha', written_next hV hwritten ha ha'⟩
  obtain ⟨hinv, hW⟩ := hstate
  obtain ⟨d, hd, -, -, hposition, -, -⟩ := hr.spec
  obtain ⟨-, ds, hds, hmem⟩ := getPaaDeclaration_ok hd
  have haccepted : Accepted content registry d := hinv.shared ds hds d hmem
  have hnamed : r.position = d.initialPosition ∨ ∃ q, d.Declares q r.position := by
    rw [hposition]
    unfold positionIn
    rcases hl : latestPositionChanged (d.triple scope) W.shared.table with _ | e
    · exact .inl rfl
    · obtain ⟨het, htriple, -⟩ := mem_positionChanges.1 (StampedLog.latest_mem hl)
      obtain ⟨d', hd', htriple', hdeclares⟩ := change_declared hinv hW het
      have hsame := htriple'.symm.trans htriple
      have htask : d'.task = d.task := congrArg Triple.task hsame
      have hversion : d'.version = d.version := congrArg Triple.declarationVersion hsame
      obtain rfl : d' = d := by
        rw [← haccepted.consistent, ← hd'.consistent, htask, hversion]
      exact .inr ⟨e.fromPosition, hdeclares⟩
  obtain ⟨p, hp⟩ := haccepted.placement hnamed
  exact ⟨d, p, hd, hp⟩

end System

/-! ## A promotion, and its demotion -/

namespace Scenario

/-- A promotion is proposed and approved. -/
def promoting : List Action :=
  calls 0 (.propose ⟨"t", none, "hotl", "file", none, none⟩) 0 11 ++
    calls 1 (.approve ⟨text 9 0, "fine", none⟩) 11 2

/-- It is demoted. -/
def lowering : List Action := calls 2 (.demote ⟨"t", none, "incident", none, []⟩) 13 9

/-- What is resolved then. -/
def resolution (position : AutonomyPosition) (id : String) : PositionResolution :=
  ⟨"t", 1, .active, none, position, .positionEvent, some (.value id)⟩

theorem reach_demoted : @System.Reach hashing config (System.init (.ok [declaration])) (after promoting) ∧
    @System.Reach hashing config (after promoting)
      (lowering.foldl (@System.next hashing config) (after promoting)) :=
  ⟨Run.foldl _ _ fun _ _ _ => trivial, Run.foldl _ _ fun _ _ _ => trivial⟩

theorem resolves_promoted : System.Obtains config (after promoting) 5 (io 40) "t" none
    (resolution .hotl (text 12 1)) := by
  unfold System.Obtains
  decide +kernel

theorem resolves_demoted : System.Obtains config
    (lowering.foldl (@System.next hashing config) (after promoting)) 5 (io 40) "t" none
    (resolution .hitl (text 21 2)) := by
  unfold System.Obtains
  decide +kernel

end Scenario

open Scenario in
/-- The promotion is found after the demotion. -/
theorem System.resolution_audit_demoted :
    ∃! e, (e ∈ (lowering.foldl (@System.next hashing config) (after promoting)).shared.table ∧
      e.id = text 12 1) ∧ e.event = .positionChanged ∧ e.triple = declaration.triple none ∧
        e.toPosition = .hotl := by
  obtain ⟨d, more, -, -, -, -, haudit⟩ := @System.resolution_audit hashing config _ _ _ _ _ _ _ _
    reach_demoted.1 reach_demoted.2 resolves_promoted
  exact haudit (text 12 1) rfl

open Scenario in
/-- Authority has moved between. -/
theorem System.resolution_fences_demoted : ∃ more,
    (lowering.foldl (@System.next hashing config) (after promoting)).shared.table =
      (after promoting).shared.table ++ more ∧
    positionChanges (declaration.triple none) more ≠ [] := by
  obtain ⟨more, hmore, -, hfence, -⟩ := @System.resolution_fences hashing config _ _ _ _ _ _ _ _ _ _ _
    reach_demoted.1 reach_demoted.2 resolves_promoted resolves_demoted rfl
  refine ⟨more, hmore, fun hnone => ?_⟩
  have hsame := (hfence (by decide +kernel)).2 hnone
  revert hsame
  decide +kernel

/-! ## A promotion of the sample's task -/

namespace Scenario

/-- The sample's promotion is proposed and approved. -/
def promotingSample : List Action :=
  calls 0 (.propose ⟨"triage", none, "hotl", "file", none, none⟩) 0 11 ++
    calls 1 (.approve ⟨text 9 0, "fine", none⟩) 11 2

def promotedSample : System :=
  promotingSample.foldl (@System.next hashing config) (System.init (.ok [Sample.declaration]))

theorem accepted_sample :
    System.Accepted (fun _ _ => Sample.declaration) Sample.registry Sample.declaration :=
  ⟨rfl, Sample.document, "triage.yaml", Sample.document_built⟩

theorem run_promotingSample : @Run _ _ (@System.next hashing config)
    (fun W a => System.ServiceOnly W a ∧
      System.LoadsOnly (System.Accepted (fun _ _ => Sample.declaration) Sample.registry) W a)
    (System.init (.ok [Sample.declaration])) promotedSample := by
  refine Run.foldl _ _ fun a ha W => ?_
  simp only [promotingSample, List.mem_append] at ha
  rcases ha with ha | ha <;> rcases mem_calls ha with rfl | ⟨k, rfl⟩ <;> exact ⟨trivial, trivial⟩

end Scenario

open Scenario in
/-- The position that the sample was promoted to has its placement. -/
theorem System.placement_in_force_sample : ∃ d p,
    getPaaDeclaration config promotedSample.shared.directory "triage" = .ok d ∧
      d.positionPolicy.placement .hotl = .ok p := by
  have hr : Obtains config promotedSample 5 (io 40) "triage" none
      ⟨"triage", 1, .active, none, .hotl, .positionEvent, some (.value (text 12 1))⟩ := by
    unfold Obtains
    decide +kernel
  have hdirectory : Directory.All
      (Accepted (fun _ _ => Sample.declaration) Sample.registry) (.ok [Sample.declaration]) := by
    rintro ds ⟨⟩ d hd
    rw [List.mem_singleton.1 hd]
    exact accepted_sample
  exact @placement_in_force hashing config _ _ _ _ _ _ _ _ _ hdirectory run_promotingSample hr

end PaaRuntime
