import PaaRuntime.Approval
import PaaRuntime.DeclarationsDir

/-!
# Operating what the loader accepts

The loader takes any integer from 1 on as a version; the store binds integers of 64 bits. A
declaration that is loaded can be operated at every scope it permits (its position resolved, its
promotion proposed and approved) exactly when its version fits (`declaration_operable_iff`).
-/

namespace PaaRuntime

open Prog

/-! ## What a propose leaves alone before its block -/

/-- What the surroundings hold for a call, apart from faults. -/
def Session.supplies (s : Session) : Io := { s.io with faults := fun _ => none }

/-- The files, the names and the motion ids among it. -/
def Session.given (s : Session) :
    (String → Option Bytes) × (String → Option String) × Except PyError String × Stream' String :=
  (s.io.files, s.io.environ, s.io.login, s.io.motionIds)

theorem given_of_supplies {s s' : Session} (h : s'.supplies = s.supplies) :
    s'.given = s.given := by
  have hgiven := congrArg (fun io : Io => (io.files, io.environ, io.login, io.motionIds)) h
  exact hgiven

theorem files_of_supplies {s s' : Session} (h : s'.supplies = s.supplies) :
    s'.io.files = s.io.files ∧ s'.io.tempNames = s.io.tempNames := by
  have hfiles := congrArg (fun io : Io => (io.files, io.tempNames)) h
  exact Prod.mk.inj hfiles

section

variable {α : Type}

theorem keeps_supplies_tick : Keeps Session.supplies tick := by
  intro s
  unfold tick
  dsimp only
  split <;> rfl

theorem keeps_given_tick : Keeps Session.given tick := fun s =>
  given_of_supplies (keeps_supplies_tick s)

theorem keeps_supplies_query (f : Table → α) : Keeps Session.supplies (query f) :=
  keeps_supplies_tick.bind fun _ => Keeps.gets _

theorem keeps_supplies_proposeLoad (config : RuntimeConfig) (args : ProposeArgs) :
    Keeps Session.supplies (proposeLoad config args) :=
  (keeps_supplies_tick.bind fun _ => (Keeps.gets _).bind fun _ => Keeps.lift _ :
    Keeps Session.supplies (loadDeclaration config args.task)).bind fun _ =>
      (Keeps.lift _).bind fun _ => (Keeps.lift _).bind fun _ => Keeps.pure _

theorem keeps_supplies_proposeCheck (d : PaaTaskDeclaration) (scope : Option String)
    (toPosition : AutonomyPosition) : Keeps Session.supplies (proposeCheck d scope toPosition) :=
  (((Keeps.lift _).bind fun _ => keeps_supplies_query _).bind fun _ => Keeps.pure _).bind fun _ =>
    Keeps.lift _

theorem keeps_supplies_proposeRead (path : String) :
    Keeps Session.supplies (proposeRead path) := by
  refine Keeps.bind (keeps_supplies_tick.bind fun _ => (Keeps.gets _).bind fun data => ?_)
    fun _ => (Keeps.lift _).bind fun _ => Keeps.pure _
  cases data with
  | none => exact Keeps.throw _
  | some data => exact Keeps.pure _

theorem keeps_given_resolveActor (explicit : Option String) (envVar : String) :
    Keeps Session.given (resolveActor explicit envVar) := by
  refine keeps_given_tick.bind fun _ => (Keeps.gets _).bind fun io => ?_
  split
  · exact Keeps.pure _
  · split
    · exact Keeps.pure _
    · split
      · exact Keeps.pure _
      · split_ifs <;> exact Keeps.throw _

theorem keeps_given_setTemp (tmp : TempName) (content : Option Bytes) :
    Keeps Session.given (setTemp tmp content) := fun _ => rfl

theorem keeps_given_mkstemp (d : Digest) : ∀ n, Keeps Session.given (mkstemp d n)
  | 0 => Keeps.throw _
  | n + 1 => by
    refine Keeps.bind (fun _ => rfl) fun name => (Keeps.gets _).bind fun disk => ?_
    split_ifs
    · exact keeps_given_mkstemp d n
    · exact (keeps_given_setTemp _ _).bind fun _ => Keeps.pure _

theorem keeps_given_acceptStored (root : String) (data : Bytes) (d : Digest) :
    Keeps Session.given (acceptStored root data d) :=
  keeps_given_tick.bind fun _ => (Keeps.gets _).bind fun _ => Keeps.lift _

variable [Hashlib]

theorem keeps_given_publishTemp (root : String) (data : Bytes) (tmp : TempName) :
    Keeps Session.given (publishTemp root data tmp) := by
  refine Keeps.bind ?_ fun _ => Keeps.bind ?_ fun linked => ?_
  · refine (keeps_given_tick.tryCatch fun _ => (Keeps.gets _).bind fun _ =>
      (keeps_given_setTemp _ _).bind fun _ => Keeps.throw _).bind fun _ => keeps_given_setTemp _ _
  · refine keeps_given_tick.bind fun _ => (Keeps.gets _).bind fun disk => ?_
    split_ifs
    · exact Keeps.pure _
    · split
      · exact Keeps.throw _
      · exact Keeps.bind (fun _ => rfl) fun _ => Keeps.pure _
  · cases linked
    · exact keeps_given_acceptStored _ _ _
    · exact Keeps.pure _

theorem keeps_given_storeEvidence (root : String) (data : Bytes) :
    Keeps Session.given (storeEvidence root data) := by
  refine keeps_given_tick.bind fun _ => keeps_given_tick.bind fun _ =>
    (Keeps.gets _).bind fun disk => ?_
  split_ifs
  · exact keeps_given_acceptStored _ _ _
  · exact keeps_given_tick.bind fun _ => (keeps_given_mkstemp _ _).bind fun tmp =>
      Keeps.ensuring (keeps_given_publishTemp _ _ _)
        (keeps_given_tick.bind fun _ => keeps_given_setTemp _ _)

end

/-! ## A propose goes through -/

section

variable {α : Type} {s : Session} {w : World} {k : ℕ} {a : α}

/-- A `finally` clause that completes after a body that does. -/
theorem Completes.ensuring {x : Py α} {fin : Py Unit} {w' : World} (hx : Completes k x s a w)
    (hfin : ∀ s', s'.world = w → s'.Quiet → Completes 0 fin s' () w') :
    Completes k (x.ensuring fin) s a w' := by
  obtain ⟨s₁, h₁, hw₁, hq₁, hids₁⟩ := hx
  obtain ⟨s₂, h₂, hw₂, hq₂, hids₂⟩ := hfin s₁ hw₁ hq₁
  refine ⟨s₂, ?_, hw₂, hq₂, hids₂.trans hids₁⟩
  unfold Prog.ensuring
  rw [h₁, h₂]

/-- A handler is not run where the body completes. -/
theorem Completes.tryCatch {x : Py α} {h : PyError → Py α} (hx : Completes k x s a w) :
    Completes k (tryCatch x h) s a w := by
  obtain ⟨s₁, h₁, hrest⟩ := hx
  refine ⟨s₁, ?_, hrest⟩
  rw [tryCatch_run, h₁]

variable (hw : s.world = w) (hq : s.Quiet)

include hw hq

theorem completes_setTemp (tmp : TempName) (content : Option Bytes) :
    Completes 0 (setTemp tmp content) s () { w with disk := w.disk.setTemp tmp content } := by
  subst hw
  exact ⟨_, rfl, rfl, ⟨hq.faults, hq.commits⟩, rfl⟩

theorem completes_unlinkTemp (tmp : TempName) :
    Completes 0 (unlinkTemp tmp) s () { w with disk := w.disk.setTemp tmp none } :=
  (completes_tick hw hq).then fun _ hw₁ hq₁ _ => completes_setTemp hw₁ hq₁ tmp none

/-- One of the names drawn is free. -/
theorem completes_mkstemp {d : Digest} {n : ℕ}
    (hfree : ∃ i < n, w.disk.temps ⟨d, s.io.tempNames.get i⟩ = none) :
    ∃ tmp, Completes 0 (mkstemp d n) s tmp { w with disk := w.disk.setTemp tmp (some []) } := by
  induction n generalizing s with
  | zero =>
    obtain ⟨i, hi, -⟩ := hfree
    exact absurd hi (Nat.not_lt_zero i)
  | succ n ih =>
    have hdraw : Completes 0 (draw (·.tempNames) fun c io => { io with tempNames := c }) s
        s.io.tempNames.head w := ⟨_, rfl, hw, ⟨hq.faults, hq.commits⟩, rfl⟩
    by_cases hhead : w.disk.temps ⟨d, s.io.tempNames.head⟩ = none
    · refine ⟨⟨d, s.io.tempNames.head⟩, hdraw.then fun s₁ hw₁ hq₁ _ => ?_⟩
      refine (completes_gets hw₁ hq₁ World.disk).then fun s₂ hw₂ hq₂ _ => ?_
      rw [hhead]
      exact (completes_setTemp hw₂ hq₂ _ _).then fun s₃ hw₃ hq₃ _ => completes_pure hw₃ hq₃ _
    · have hrest : ∃ i < n, w.disk.temps ⟨d, s.io.tempNames.tail.get i⟩ = none := by
        obtain ⟨i, hi, hnone⟩ := hfree
        rcases i with _ | i
        · exact absurd hnone hhead
        · exact ⟨i, Nat.lt_of_succ_lt_succ hi, hnone⟩
      obtain ⟨tmp, s₁, h₁, hw₁, hq₁, hids₁⟩ := ih
        (s := { s with io := { s.io with tempNames := s.io.tempNames.tail } }) hw
        ⟨hq.faults, hq.commits⟩ hrest
      refine ⟨tmp, s₁, ?_, hw₁, hq₁, hids₁⟩
      subst hw
      unfold mkstemp
      rw [bind_run]
      simp only [draw, gets_bind_run]
      rw [if_pos (Option.isSome_iff_ne_none.2 hhead)]
      exact h₁

theorem completes_acceptStored {root : String} {data : Bytes} {d : Digest}
    (h : w.disk.published d = some data) :
    Completes 0 (acceptStored root data d) s (evidenceRefFor d.hex, d.hex) w :=
  (completes_tick hw hq).then fun _ hw₁ hq₁ _ => (completes_gets hw₁ hq₁ World.disk).then
    fun _ hw₂ hq₂ _ => completes_lift hw₂ hq₂ (acceptExisting_ok.2 ⟨h, rfl⟩)

variable [Hashlib]

/-- A temporary file is written, linked at the free address and unlinked. -/
theorem completes_publishTemp {root : String} {data : Bytes} (tmp : TempName)
    (h : w.disk.published (computeSha256 data) = none) :
    Completes 0 (publishTemp root data tmp) s
      (evidenceRefFor (computeSha256 data).hex, (computeSha256 data).hex)
      { w with disk := (w.disk.setTemp tmp (some data)).publish (computeSha256 data) data } := by
  have hwritten : Completes 0 (writeTemp tmp data) s ()
      { w with disk := w.disk.setTemp tmp (some data) } :=
    (completes_tick hw hq).tryCatch.then fun s₁ hw₁ hq₁ _ => completes_setTemp hw₁ hq₁ _ _
  refine hwritten.then fun s₁ hw₁ hq₁ _ => ?_
  have hlinked : Completes 0 (link tmp (computeSha256 data)) s₁ true
      { w with disk := (w.disk.setTemp tmp (some data)).publish (computeSha256 data) data } := by
    refine (completes_tick hw₁ hq₁).then fun s₂ hw₂ hq₂ _ => ?_
    refine (completes_gets hw₂ hq₂ World.disk).then fun s₃ hw₃ hq₃ _ => ?_
    have hfree : ((w.disk.setTemp tmp (some data)).published (computeSha256 data)).isSome = false := by
      rw [Disk.setTemp_published, h]
      rfl
    have hcontent : (w.disk.setTemp tmp (some data)).temps tmp = some data := by
      rw [Disk.setTemp_temps, Function.update_self]
    simp only [hfree, hcontent]
    refine ⟨_, rfl, ?_, ⟨hq₃.faults, hq₃.commits⟩, rfl⟩
    show { s₃.world with disk := s₃.world.disk.publish (computeSha256 data) data } = _
    rw [hw₃]
  exact hlinked.then fun s₂ hw₂ hq₂ _ => completes_pure hw₂ hq₂ _

omit [Hashlib] hw in
/-- An interaction draws no names. -/
theorem quiet_tick : ∃ s₁, tick s = (.ok (), s₁) ∧ s₁.world = s.world ∧ s₁.Quiet ∧
    s₁.io.eventIds = s.io.eventIds ∧ s₁.io.tempNames = s.io.tempNames :=
  ⟨_, tick_of_quiet (hq.faults 0), rfl, ⟨fun n => hq.faults (n + 1), hq.commits⟩, rfl, rfl⟩

theorem completes_storeMissing (root : String) {data : Bytes}
    (hp : w.disk.published (computeSha256 data) = none)
    (hfree : ∃ i < tmpMax, w.disk.temps ⟨computeSha256 data, s.io.tempNames.get i⟩ = none) :
    ∃ disk, disk.published (computeSha256 data) = some data ∧
      Completes 0 (storeMissing root data) s
        (evidenceRefFor (computeSha256 data).hex, (computeSha256 data).hex)
        { w with disk := disk } := by
  obtain ⟨s₁, h₁, hw₁, hq₁, hids₁, hnames⟩ := quiet_tick hq
  rw [← hnames] at hfree
  obtain ⟨tmp, htmp⟩ := completes_mkstemp (hw₁.trans hw) hq₁ hfree
  have hstored : Completes 0 (mkstemp (computeSha256 data) tmpMax >>= fun tmp =>
      (publishTemp root data tmp).ensuring (unlinkTemp tmp)) s₁ _ _ :=
    htmp.then fun s₂ hw₂ hq₂ _ => (completes_publishTemp hw₂ hq₂ tmp hp).ensuring
      fun s₃ hw₃ hq₃ => completes_unlinkTemp hw₃ hq₃ tmp
  obtain ⟨s₂, h₂, hw₂, hq₂, hids₂⟩ := hstored
  refine ⟨_, ?_, s₂, bind_ok.2 ⟨(), s₁, h₁, h₂⟩, hw₂, hq₂, hids₂.trans hids₁⟩
  simp

/-- Evidence is stored where no other bytes stand at its address and a temporary name is free. -/
theorem completes_storeEvidence (root : String) {data : Bytes}
    (hagrees : ∀ content, w.disk.published (computeSha256 data) = some content → content = data)
    (hfree : ∃ i < tmpMax, w.disk.temps ⟨computeSha256 data, s.io.tempNames.get i⟩ = none) :
    ∃ disk, disk.published (computeSha256 data) = some data ∧
      Completes 0 (storeEvidence root data) s
        (evidenceRefFor (computeSha256 data).hex, (computeSha256 data).hex)
        { w with disk := disk } := by
  obtain ⟨s₁, h₁, hw₁, hq₁, hids₁, hnames₁⟩ := quiet_tick hq
  obtain ⟨s₂, h₂, hw₂, hq₂, hids₂, hnames₂⟩ := quiet_tick hq₁
  have hw' : s₂.world = w := hw₂.trans (hw₁.trans hw)
  have hrest : ∃ disk, disk.published (computeSha256 data) = some data ∧
      Completes 0 (gets (·.world.disk) >>= fun disk => if (disk.published (computeSha256 data)).isSome
          then acceptStored root data (computeSha256 data) else storeMissing root data) s₂
        (evidenceRefFor (computeSha256 data).hex, (computeSha256 data).hex)
        { w with disk := disk } := by
    rcases hp : w.disk.published (computeSha256 data) with _ | content
    · rw [← hnames₁, ← hnames₂] at hfree
      obtain ⟨disk, hdisk, hstored⟩ := completes_storeMissing hw' hq₂ root hp hfree
      obtain ⟨s₃, h₃, hrest⟩ := hstored
      refine ⟨disk, hdisk, s₃, ?_, hrest⟩
      rw [gets_bind_run, hw', hp]
      exact h₃
    · obtain rfl := hagrees content hp
      refine ⟨w.disk, hp, (completes_gets hw' hq₂ World.disk).then fun s₃ hw₃ hq₃ _ => ?_⟩
      rw [hp]
      exact completes_acceptStored hw₃ hq₃ hp
  obtain ⟨disk, hdisk, s₃, h₃, hw₃, hq₃, hids₃⟩ := hrest
  exact ⟨disk, hdisk, s₃, bind_ok.2 ⟨(), s₁, h₁, bind_ok.2 ⟨(), s₂, h₂, h₃⟩⟩, hw₃, hq₃,
    hids₃.trans (hids₂.trans hids₁)⟩

/-! ## The parts of a propose -/

omit hw [Hashlib] in
/-- The operator that is found depends on what the surroundings hold. -/
theorem resolveActor_congr {s' : Session} (hq' : s'.Quiet) (h : s'.given = s.given)
    (explicit : Option String) (envVar : String) :
    (resolveActor explicit envVar s').1 = (resolveActor explicit envVar s).1 := by
  obtain ⟨s₁, h₁, hgiven₁⟩ : ∃ s₁, tick s = (.ok (), s₁) ∧ s₁.given = s.given :=
    ⟨_, tick_of_quiet (hq.faults 0), rfl⟩
  obtain ⟨s₁', h₁', hgiven₁'⟩ : ∃ s₁, tick s' = (.ok (), s₁) ∧ s₁.given = s'.given :=
    ⟨_, tick_of_quiet (hq'.faults 0), rfl⟩
  have hsame := hgiven₁'.trans (h.trans hgiven₁.symm)
  simp only [Session.given, Prod.mk.injEq] at hsame
  unfold resolveActor
  rw [bind_run, bind_run, h₁, h₁']
  dsimp only
  rw [gets_bind_run, gets_bind_run, hsame.2.1, hsame.2.2.1]
  rcases Option.filter (fun actor => decide (actor ≠ "")) explicit with _ | actor
  · rcases Option.filter (fun actor => decide (actor ≠ "")) (s₁.io.environ envVar) with _ | actor
    · rcases s₁.io.login with e | actor
      · by_cases he : e.cls = .osError ∨ e.cls = .keyError
        · simp only [if_pos he]
          rfl
        · simp only [if_neg he]
          rfl
      · rfl
    · rfl
  · rfl

omit [Hashlib] in
theorem completes_newMotionId : Completes 0 newMotionId s s.io.motionIds.head w := by
  subst hw
  exact ⟨_, bind_ok.2 ⟨(), _, tick_of_quiet (hq.faults 0), rfl⟩, rfl,
    ⟨fun n => hq.faults (n + 1), hq.commits⟩, rfl⟩

omit [Hashlib] in
theorem completes_foldCurrentPosition {d : PaaTaskDeclaration} (hv : IsInt64 d.version)
    (scope : Option String) :
    Completes 0 (foldCurrentPosition d scope) s
      (positionIn w.view d scope, latestPositionChanged (d.triple scope) w.view) w :=
  (completes_getLatestPositionChangedEvent hw hq hv).then fun _ hw₁ hq₁ _ =>
    completes_pure hw₁ hq₁ _

omit [Hashlib] in
/-- A position is resolved where the version of the declaration can be bound. -/
theorem completes_resolveCurrentPosition {config : RuntimeConfig} {task : String}
    {scope : Option String} {d : PaaTaskDeclaration}
    (hd : getPaaDeclaration config w.directory task = .ok d) (hscope : d.Permits scope)
    (hv : IsInt64 d.version) :
    Completes 0 (resolveCurrentPosition config task scope) s
      (resolvedPosition d scope (latestPositionChanged (d.triple scope) w.view)) w := by
  refine (completes_loadDeclaration hw hq hd).then fun s₁ hw₁ hq₁ _ => ?_
  have hpermits := (validateScope_ok (u := ())).2 hscope
  refine (completes_lift hw₁ hq₁ hpermits).then fun s₂ hw₂ hq₂ _ => ?_
  exact (completes_foldCurrentPosition hw₂ hq₂ hv scope).then fun s₃ hw₃ hq₃ _ =>
    completes_pure hw₃ hq₃ _

omit [Hashlib] in
theorem completes_proposeLoad {config : RuntimeConfig} {args : ProposeArgs}
    {d : PaaTaskDeclaration} {target : AutonomyPosition}
    (hd : getPaaDeclaration config w.directory args.task = .ok d) (hscope : d.Permits args.scope)
    (htarget : AutonomyPosition.ofText? args.toPosition = some target) :
    Completes 0 (proposeLoad config args) s (d, target) w := by
  refine (completes_loadDeclaration hw hq hd).then fun s₁ hw₁ hq₁ _ => ?_
  have hpermits := (validateScope_ok (u := ())).2 hscope
  refine (completes_lift hw₁ hq₁ hpermits).then fun s₂ hw₂ hq₂ _ => ?_
  exact (completes_lift hw₂ hq₂ (requireSome_ok.2 htarget)).then fun s₃ hw₃ hq₃ _ =>
    completes_pure hw₃ hq₃ _

omit [Hashlib] in
theorem completes_proposeCheck {d : PaaTaskDeclaration} {scope : Option String}
    {target : AutonomyPosition} (hv : IsInt64 d.version)
    (hdeclares : d.Declares (positionIn w.view d scope) target) :
    Completes 0 (proposeCheck d scope target) s () w :=
  (completes_foldCurrentPosition hw hq hv scope).then fun _ hw₁ hq₁ _ =>
    completes_lift hw₁ hq₁ (requireDeclaredTransition_ok.2 hdeclares)

omit [Hashlib] in
theorem completes_proposeRead {path : String} {data : Bytes} (hfile : s.io.files path = some data)
    (hne : data ≠ []) : Completes 0 (proposeRead path) s data w := by
  have hread : Completes 0 (readEvidenceFile path) s data w := by
    obtain ⟨s₁, h₁, hw₁, hq₁, hids₁, hfiles⟩ : ∃ s₁, tick s = (.ok (), s₁) ∧ s₁.world = s.world ∧
        s₁.Quiet ∧ s₁.io.eventIds = s.io.eventIds ∧ s₁.io.files = s.io.files :=
      ⟨_, tick_of_quiet (hq.faults 0), rfl, ⟨fun n => hq.faults (n + 1), hq.commits⟩, rfl, rfl⟩
    refine ⟨s₁, bind_ok.2 ⟨(), s₁, h₁, ?_⟩, hw₁.trans hw, hq₁, hids₁⟩
    rw [gets_bind_run, hfiles, hfile]
    rfl
  exact hread.then fun s₁ hw₁ hq₁ _ => (completes_require hw₁ hq₁ hne _).then
    fun s₂ hw₂ hq₂ _ => completes_pure hw₂ hq₂ _

omit [Hashlib] in
/-- The block of `propose` completes where the transition is declared and the row fits. -/
theorem completes_proposeBlock {p : Draft} {t : Table} (ht : w.working = some t)
    (hlock : w.locked = false) (hv : IsInt64 p.declaration.version)
    (hdeclares : p.declaration.Declares (positionIn t p.declaration p.scope) p.toPosition)
    (hids : FreshIds s.io.eventIds t) (hmotion : ∀ e ∈ t, e.motionId ≠ p.motionId) :
    ∃ events w', Completes 1 (proposeBlock p) s events w' := by
  rw [← World.view_of_working ht] at hdeclares
  obtain ⟨s₁, h₁, hw₁, hq₁, hids₁⟩ := completes_foldCurrentPosition hw hq hv p.scope
  have hfits : ∀ createdAt, Fits t (p.proposal (positionIn w.view p.declaration p.scope)
      s₁.io.eventIds.head createdAt) := by
    intro createdAt
    refine ⟨hv, fun r hr => ⟨?_, fun h => hmotion r hr h.1⟩⟩
    rw [hids₁]
    exact hids.new 0 r hr
  obtain ⟨createdAt, s₂, h₂, hw₂, hq₂, hids₂⟩ := completes_recordEvent hw₁ hq₁ ht hlock hfits
  obtain ⟨s₃, h₃, hw₃, hq₃, hids₃⟩ := completes_query hw₂ hq₂ (eventsForMotion p.motionId)
  have hrequired : (liftM (requireDeclaredTransition p.declaration
      (positionIn w.view p.declaration p.scope) p.toPosition) : Py Unit) s₁ = (.ok (), s₁) :=
    liftM_ok.2 ⟨requireDeclaredTransition_ok.2 hdeclares, rfl⟩
  refine ⟨_, _, s₃, bind_ok.2 ⟨_, s₁, h₁, bind_ok.2 ⟨(), s₁, hrequired, bind_ok.2 ⟨(), s₂, h₂, h₃⟩⟩⟩,
    hw₃, hq₃, ?_⟩
  rw [hids₃, hids₂, hids₁]
  rfl

end

/-! ## A propose and an approve -/

/-- A call of `propose` that is heard: its evidence can be read, is not empty and can be stored, it
has an operator and fresh ids, it obtains the write lock, and nothing disturbs it. -/
structure ProposeHeard [Hashlib] (config : RuntimeConfig) (args : ProposeArgs) (data : Bytes)
    (s : Session) : Prop where
  quiet : s.Quiet
  closed : s.world.working = none
  unlocked : s.world.locked = false
  file : s.io.files args.evidencePath = some data
  nonempty : data ≠ []
  /-- No other bytes stand at the address of the evidence. -/
  agrees : ∀ content, s.world.disk.published (computeSha256 data) = some content → content = data
  /-- One of the names tried for the temporary file is free. -/
  name : ∃ i < tmpMax, s.world.disk.temps ⟨computeSha256 data, s.io.tempNames.get i⟩ = none
  actor : ∃ actor, (resolveActor args.actor config.actorEnvVar s).1 = .ok actor
  eventIds : FreshIds s.io.eventIds s.committed
  motionId : ∀ e ∈ s.committed, e.motionId ≠ s.io.motionIds.head

section

variable [Hashlib] {config : RuntimeConfig} {args : ProposeArgs} {data : Bytes} {s : Session}
  {d : PaaTaskDeclaration} {target : AutonomyPosition}

/-- A `propose` of a declared transition that is heard returns, with its row committed and its
evidence stored. -/
theorem ProposeHeard.returns (h : ProposeHeard config args data s)
    (hd : getPaaDeclaration config s.world.directory args.task = .ok d)
    (hscope : d.Permits args.scope)
    (htarget : AutonomyPosition.ofText? args.toPosition = some target) (hv : IsInt64 d.version)
    (hdeclares : d.Declares (positionIn s.committed d args.scope) target) :
    ∃ m s' e actor disk, propose config args s = (.ok m, s') ∧
      s'.world = { s.world with disk := disk }.commitAs (s.committed ++ [e]) ∧
      disk.published (computeSha256 data) = some data ∧ m.motionId = s.io.motionIds.head ∧
      Proposes ⟨d, args.scope, target, evidenceRefFor (computeSha256 data).hex,
        (computeSha256 data).hex, actor, args.reason, s.io.motionIds.head⟩ s.committed e := by
  have hview : s.world.view = s.committed := World.view_of_closed h.closed
  have hprovisional := hdeclares
  rw [← hview] at hprovisional
  obtain ⟨s₁, h₁, hw₁, hq₁, hids₁⟩ := completes_proposeLoad rfl h.quiet hd hscope htarget
  have hsup₁ : s₁.supplies = s.supplies := (keeps_supplies_proposeLoad _ _).eq_of_run h₁
  obtain ⟨s₂, h₂, hw₂, hq₂, hids₂⟩ := completes_proposeCheck hw₁ hq₁ hv hprovisional
  have hsup₂ := ((keeps_supplies_proposeCheck _ _ _).eq_of_run h₂).trans hsup₁
  have hfile : s₂.io.files args.evidencePath = some data := by
    rw [(files_of_supplies hsup₂).1]
    exact h.file
  obtain ⟨s₃, h₃, hw₃, hq₃, hids₃⟩ := completes_proposeRead hw₂ hq₂ hfile h.nonempty
  have hsup₃ := ((keeps_supplies_proposeRead _).eq_of_run h₃).trans hsup₂
  have hfree := h.name
  rw [← (files_of_supplies hsup₃).2] at hfree
  obtain ⟨disk, hdisk, s₄, h₄, hw₄, hq₄, hids₄⟩ :=
    completes_storeEvidence hw₃ hq₃ config.evidenceRoot h.agrees hfree
  have hgiven : s₄.given = s.given :=
    ((keeps_given_storeEvidence _ _).eq_of_run h₄).trans (given_of_supplies hsup₃)
  obtain ⟨actor, hactor⟩ := h.actor
  rw [← resolveActor_congr h.quiet hq₄ hgiven] at hactor
  obtain ⟨s₅, h₅, hw₅, hq₅, hids₅⟩ := completes_resolveActor hw₄ hq₄ hactor
  obtain ⟨s₆, h₆, hw₆, hq₆, hids₆⟩ := completes_newMotionId hw₅ hq₅
  have hmotion : s₅.io.motionIds = s.io.motionIds := by
    have hkept := ((keeps_given_resolveActor _ _).eq_of_run h₅).trans hgiven
    simp only [Session.given, Prod.mk.injEq] at hkept
    exact hkept.2.2.2
  rw [hmotion] at h₆
  have hids : s₆.io.eventIds = s.io.eventIds := by
    rw [hids₆, hids₅, hids₄, hids₃, hids₂, hids₁]
    rfl
  obtain ⟨events, w, s₇, h₇, -⟩ := @completes_beginImmediate s₆ _ hw₆ hq₆ _ 1
    (proposeBlock ⟨d, args.scope, target, evidenceRefFor (computeSha256 data).hex,
      (computeSha256 data).hex, actor, args.reason, s.io.motionIds.head⟩) h.closed h.unlocked
    fun s₀ hw₀ hq₀ hids₀ => completes_proposeBlock hw₀ hq₀ rfl h.unlocked hv hdeclares
      (by rw [hids₀, hids]; exact h.eventIds) h.motionId
  obtain ⟨m, hm⟩ := proposeBlock_projects h₇
  have hlocked : proposeLocked _ s₆ = (.ok m, s₇) := bind_ok.2 ⟨events, s₇, h₇, liftM_ok.2 ⟨hm, rfl⟩⟩
  obtain ⟨-, -, hid, e, hproposes, hw₇⟩ := proposeLocked_ok hlocked
  rw [hw₆] at hproposes hw₇
  refine ⟨m, s₇, e, actor, disk, ?_, hw₇, hdisk, hid, hproposes⟩
  refine bind_ok.2 ⟨_, s₁, h₁, bind_ok.2 ⟨(), s₂, h₂, bind_ok.2 ⟨data, s₃, h₃, ?_⟩⟩⟩
  refine bind_ok.2 ⟨_, s₄, h₄, bind_ok.2 ⟨(actor, s.io.motionIds.head), s₆, ?_, hlocked⟩⟩
  exact bind_ok.2 ⟨actor, s₅, h₅, bind_ok.2 ⟨_, s₆, h₆, rfl⟩⟩

omit [Hashlib] in
/-- Where timestamps increase, the position is where the last change of the table ends. -/
theorem positionIn_of_changed {t : Table} {scope : Option String} {a c : AutonomyEvent}
    (hclock : (t ++ [a, c]).Pairwise (·.createdAt < ·.createdAt))
    (hc : c.triple = d.triple scope ∧ c.event = .positionChanged) :
    positionIn (t ++ [a, c]) d scope = c.toPosition := by
  have hlast : positionChanges (d.triple scope) (t ++ [a, c]) =
      positionChanges (d.triple scope) (t ++ [a]) ++ [c] := by
    rw [List.append_cons, positionChanges_append]
    congr 1
    exact List.filter_eq_self.2 fun e he => by
      rw [List.mem_singleton.1 he]
      exact decide_eq_true hc
  unfold positionIn
  rw [latestPositionChanged_of_increasing hclock, hlast, List.getLast?_concat]
  rfl

/-- A proposal that was committed last, with its evidence stored and its declaration in force, is
approved by a call that is heard, and the position is then its target. -/
theorem Heard.approves {t : Table} {p : Draft} {e : AutonomyEvent} {margs : MotionArgs}
    (h : Heard config margs s) (hids : FreshIds s.io.eventIds s.committed)
    (hs : s.committed = t ++ [e]) (hm : margs.motionId = p.motionId)
    (hfits : StampedLog.Grown Fits (t ++ [e]))
    (hclock : (t ++ [e]).Pairwise (·.createdAt < ·.createdAt))
    (hnew : ∀ r ∈ t, r.motionId ≠ p.motionId) (hproposes : Proposes p t e)
    (hd : getPaaDeclaration config s.world.directory p.declaration.task = .ok p.declaration)
    (hevidence : ∃ data, verifyEvidence config.evidenceRoot s.world.disk p.evidenceRef
      p.evidenceSha256 = .ok data) :
    ∃ m s', approve config margs s = (.ok m, s') ∧ s'.world.directory = s.world.directory ∧
      (s'.committed.Pairwise (·.createdAt < ·.createdAt) →
        positionIn s'.committed p.declaration p.scope = p.toPosition) := by
  obtain ⟨id, createdAt, rfl⟩ := hproposes.row
  have hrows : motionRows margs.motionId s.committed =
      [p.proposal (positionIn t p.declaration p.scope) id createdAt] := by
    have hnone : motionRows margs.motionId t = [] :=
      motionRows_eq_nil fun r hr => hm ▸ hnew r hr
    rw [hs, motionRows_append_self t, hnone, List.nil_append]
    intro r hr
    rw [List.mem_singleton.1 hr, hm]
    rfl
  have hbaseline := (System.baseline_iff_none_since (t := p.declaration.triple p.scope) rfl rfl hclock
    hfits).2 rfl
  have happrovable : Approvable config s.world.directory s.world.disk s.committed
      (p.proposal (positionIn t p.declaration p.scope) id createdAt) :=
    ⟨hevidence, ⟨p.declaration, hd, rfl, hproposes.declared⟩, hproposes.fits.version,
      hs ▸ hbaseline⟩
  obtain ⟨m, s', hrun⟩ := h.approve_returns (k := 2) fun actor s₀ hw₀ hq₀ hids₀ =>
    completes_approveBlock_pending hw₀ hq₀ rfl h.unlocked (hids₀ ▸ hids) hrows rfl happrovable actor
  obtain ⟨actor, s₁, -, hw₁, hlocked⟩ := (keeps_world_reasonedActor _ _ _ _).bind_ok hrun
  obtain ⟨-, -, -, hcase⟩ := approveLocked_ok hlocked
  rw [hw₁] at hcase
  rcases hcase with ⟨q, a, c, hexec, -⟩ | ⟨q, a, c, happ, hw⟩
  · obtain ⟨hc, hck⟩ := byEvent_eq_some hexec.change
    rw [mem_eventsForMotion_iff] at hc
    rw [show motionRows margs.motionId s.world.committed = _ from hrows, List.mem_singleton] at hc
    rw [hc] at hck
    cases hck
  · refine ⟨m, s', hrun, by rw [hw]; rfl, fun hclock' => ?_⟩
    have hq : q ∈ motionRows margs.motionId s.committed :=
      mem_motionRows.2 ⟨happ.pending.mem, happ.pending.motion⟩
    rw [hrows, List.mem_singleton] at hq
    obtain ⟨idc, atc, hc⟩ := happ.changedRow
    have hcommitted : s'.committed = s.committed ++ [a, c] := congrArg World.committed hw
    rw [hcommitted] at hclock' ⊢
    rw [positionIn_of_changed hclock' (by rw [hc, hq]; exact ⟨rfl, rfl⟩), hc, hq]
    rfl

end

/-! ## What the loader accepts -/

/-- A declaration can be operated at a scope over a table of events. -/
structure Operable [Hashlib] (config : RuntimeConfig) (directory : Directory) (t : Table)
    (d : PaaTaskDeclaration) (scope : Option String) : Prop where
  /-- Its position is resolved. -/
  resolves : ∀ s : Session, s.Quiet → s.world.view = t → s.world.directory = directory →
    ∃ r s', resolveCurrentPosition config d.task scope s = (.ok r, s') ∧
      r.currentPosition = positionIn t d scope
  /-- From the source of its promotion, a propose and an approve move it to the target. -/
  promotes : positionIn t d scope = d.promotion.fromPosition →
    ∀ args data s, ProposeHeard config args data s → s.committed = t →
      s.world.directory = directory → args.task = d.task → args.scope = scope →
      args.toPosition = d.promotion.toPosition.text →
      ∃ m s₁, propose config args s = (.ok m, s₁) ∧
        ∀ margs s₂, Heard config margs s₂ → s₂.world = s₁.world → margs.motionId = m.motionId →
          FreshIds s₂.io.eventIds s₂.committed →
          s₂.committed.Pairwise (·.createdAt < ·.createdAt) →
          ∃ m' s₃, approve config margs s₂ = (.ok m', s₃) ∧
            (s₃.committed.Pairwise (·.createdAt < ·.createdAt) →
              ∀ s₄ : Session, s₄.Quiet → s₄.world.view = s₃.committed →
                s₄.world.directory = directory →
                ∃ r s₅, resolveCurrentPosition config d.task scope s₄ = (.ok r, s₅) ∧
                  r.currentPosition = d.promotion.toPosition)
  /-- The store reads its partition. -/
  reads : ∀ s : Session, s.Quiet → s.world.view = t →
    (∃ o s', getLatestPositionChangedEvent (d.triple scope) s = (.ok o, s')) ∧
      (∀ createdAt eventId, ∃ o s',
        getPositionChangedEventBefore (d.triple scope) createdAt eventId s = (.ok o, s')) ∧
      ∃ events s', getAutonomyEvents (some d.task) s = (.ok events, s')
  /-- The store writes a row of its partition that collides with none. -/
  writes : ∀ s : Session, s.Quiet → s.world.working = some t → s.world.locked = false →
    ∀ e : AutonomyEvent, e.triple = d.triple scope →
      (∀ r ∈ t, r.id ≠ e.id ∧ ¬ (r.motionId = e.motionId ∧ r.event = e.event)) →
      ∃ s', insertAutonomyEvent e.columns s = (.ok (), s')

section

variable [Hashlib] {config config₀ : RuntimeConfig} {directory directory₀ : Directory} {t : Table}
  {d : PaaTaskDeclaration} {scope : Option String} {registry : List ProducerRegistration}
  {dirPath : String} {isDir : Bool} {files : List DeclarationFile} {ds : List PaaTaskDeclaration}
  {W : System}

/-- A declaration whose version fits moves to the target of its promotion. -/
theorem promotes_of_fits (hd : getPaaDeclaration config directory d.task = .ok d)
    (hscope : d.Permits scope) (hv : IsInt64 d.version) (hfits : StampedLog.Grown Fits t)
    (hfrom : positionIn t d scope = d.promotion.fromPosition) {args : ProposeArgs} {data : Bytes}
    {s : Session} (h : ProposeHeard config args data s) (hs : s.committed = t)
    (hdir : s.world.directory = directory) (htask : args.task = d.task)
    (hargs : args.scope = scope) (htarget : args.toPosition = d.promotion.toPosition.text) :
    ∃ m s₁, propose config args s = (.ok m, s₁) ∧
      ∀ margs s₂, Heard config margs s₂ → s₂.world = s₁.world → margs.motionId = m.motionId →
        FreshIds s₂.io.eventIds s₂.committed → s₂.committed.Pairwise (·.createdAt < ·.createdAt) →
        ∃ m' s₃, approve config margs s₂ = (.ok m', s₃) ∧
          (s₃.committed.Pairwise (·.createdAt < ·.createdAt) →
            positionIn s₃.committed d scope = d.promotion.toPosition) := by
  subst hargs hs hdir
  have hdeclares : d.Declares (positionIn s.committed d args.scope) d.promotion.toPosition :=
    .inl ⟨hfrom, rfl⟩
  have htext : AutonomyPosition.ofText? args.toPosition = some d.promotion.toPosition := by
    rw [htarget, AutonomyPosition.ofText?_text]
  rw [← htask] at hd
  obtain ⟨m, s₁, e, actor, disk, hrun, hw, hdisk, hm, hproposes⟩ :=
    h.returns hd hscope htext hv hdeclares
  refine ⟨m, s₁, hrun, fun margs s₂ h₂ hw₂ hm₂ hids hclock => ?_⟩
  rw [hw] at hw₂
  have hcommitted : s₂.committed = s.committed ++ [e] := congrArg World.committed hw₂
  have hdirectory : s₂.world.directory = s.world.directory := by
    rw [hw₂]
    rfl
  have hdisk₂ : s₂.world.disk = disk := by
    rw [hw₂]
    rfl
  obtain ⟨m', s₃, happrove, -, hmoved⟩ := h₂.approves hids hcommitted (hm₂.trans hm)
    (StampedLog.grown_concat.2 ⟨hfits, hproposes.fits⟩) (hcommitted ▸ hclock) h.motionId hproposes
    (by rw [hdirectory, ← htask]; exact hd)
    ⟨data, hdisk₂ ▸ verifyEvidence_of_published hdisk rfl⟩
  exact ⟨m', s₃, happrove, hmoved⟩

/-- What the loader accepts can be operated where its version fits eight bytes. -/
theorem operable_of_fits (hd : getPaaDeclaration config directory d.task = .ok d)
    (hscope : d.Permits scope) (hv : IsInt64 d.version) (hfits : StampedLog.Grown Fits t) :
    Operable config directory t d scope where
  resolves s hq hview hdir := by
    rw [← hdir] at hd
    obtain ⟨s', hrun, -⟩ := completes_resolveCurrentPosition rfl hq hd hscope hv
    exact ⟨_, s', hrun, by rw [← hview]; rfl⟩
  promotes hfrom args data s h hs hdir htask hargs htarget := by
    obtain ⟨m, s₁, hrun, happroves⟩ :=
      promotes_of_fits hd hscope hv hfits hfrom h hs hdir htask hargs htarget
    refine ⟨m, s₁, hrun, fun margs s₂ h₂ hw₂ hm₂ hids hclock => ?_⟩
    obtain ⟨m', s₃, happrove, hmoved⟩ := happroves margs s₂ h₂ hw₂ hm₂ hids hclock
    refine ⟨m', s₃, happrove, fun hclock₃ s₄ hq hview hdir₄ => ?_⟩
    rw [← hdir₄] at hd
    obtain ⟨s₅, hrun₅, -⟩ := completes_resolveCurrentPosition rfl hq hd hscope hv
    refine ⟨_, s₅, hrun₅, ?_⟩
    rw [hview]
    exact hmoved hclock₃
  reads s hq hview := by
    refine ⟨?_, fun createdAt eventId => ?_, ?_⟩
    · obtain ⟨s', hrun, -⟩ := completes_getLatestPositionChangedEvent rfl hq
        (show IsInt64 (d.triple scope).declarationVersion from hv)
      exact ⟨_, s', hrun⟩
    · obtain ⟨s', hrun, -⟩ := completes_getPositionChangedEventBefore rfl hq
        (show IsInt64 (d.triple scope).declarationVersion from hv) createdAt eventId
      exact ⟨_, s', hrun⟩
    · obtain ⟨s', hrun, -⟩ := completes_query rfl hq (allEvents (some d.task))
      exact ⟨_, s', hrun⟩
  writes s hq hworking hlock e he hunique := by
    have hversion : e.declarationVersion = d.version := congrArg Triple.declarationVersion he
    obtain ⟨s', hrun, -⟩ := completes_insertAutonomyEvent rfl hq hworking hlock
      ⟨hversion.symm ▸ hv, hunique⟩
    exact ⟨s', hrun⟩

end

namespace Sample

/-- The sample's document at a version. -/
def documentAt (version : Int) : Value String :=
  match document with
  | .dict members => .dict (members.map fun member =>
      if member.1 = .str "version" then (member.1, .int version) else member)
  | other => other

/-- A directory of that one document. -/
def files (version : Int) : List DeclarationFile := [⟨"triage.yaml", .ok (documentAt version)⟩]

/-- The sample's declaration at a version. -/
def declarationAt (version : Int) : PaaTaskDeclaration := { declaration with version := version }

set_option maxRecDepth 10000 in
theorem files_loaded {version : Int} (h : version = 1 ∨ version = 9223372036854775808) :
    loadPaaDeclarations "declarations" true (files version) registry =
      .ok [declarationAt version] := by
  have hload : (loadPaaDeclarations "declarations" true (files version) registry).toOption =
      some [declarationAt version] := by
    rcases h with rfl | rfl <;> decide +kernel
  cases hb : loadPaaDeclarations "declarations" true (files version) registry with
  | error e =>
    rw [hb] at hload
    cases hload
  | ok ds =>
    rw [hb] at hload
    rw [Option.some.inj hload]

end Sample

end PaaRuntime
