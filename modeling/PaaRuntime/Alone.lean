import PaaRuntime.Demotions

/-!
# A call by itself

What the four workflows do from beginning to end where nothing disturbs them: no other client comes
between two parts of the call, nothing fails, and the surroundings serve it what it draws (`Io.serving`).
There each part of a call is a function of what it finds, and a call that has its grounds answers as
its block would from the same table.
-/

namespace PaaRuntime

open Prog

/-! ## Surroundings that serve a call -/

/-- The elements of a list, and then empty texts. -/
def listed (l : List String) : Stream' String := fun n => l.getD n ""

/-- Surroundings in which nothing fails, the evidence file holds `data`, and clock, event ids and motion
ids give what is listed. -/
def Io.serving (io : Io) (data : Bytes) (clock eventIds motionIds : List String) : Io :=
  { io with
    faults := Stream'.const none
    commits := Stream'.const .done
    clock := listed clock
    eventIds := listed eventIds
    motionIds := listed motionIds
    tempNames := Stream'.const ""
    files := fun _ => some data }

/-- The operator that the surroundings name. -/
inductive Io.Names (io : Io) (explicit : Option String) (envVar : String) : String → Prop
  | explicit {actor} (h : explicit.filter (· ≠ "") = some actor) : io.Names explicit envVar actor
  | environ {actor} (hnone : explicit.filter (· ≠ "") = none)
      (h : (io.environ envVar).filter (· ≠ "") = some actor) : io.Names explicit envVar actor
  | login {actor} (hnone : explicit.filter (· ≠ "") = none)
      (hunset : (io.environ envVar).filter (· ≠ "") = none) (h : io.login = .ok actor) :
      io.Names explicit envVar actor

/-- The name that a call has resolved is the one that its surroundings give. -/
theorem resolveActor_names {explicit : Option String} {envVar actor : String} {s s' : Session}
    (h : resolveActor explicit envVar s = (.ok actor, s')) : s.io.Names explicit envVar actor := by
  obtain ⟨_, s₁, h₁, h₂⟩ := bind_ok.1 h
  have hio : s₁.io.environ = s.io.environ ∧ s₁.io.login = s.io.login := by
    rcases hf : s.io.faults.head with _ | f
    · rw [tick_of_quiet hf] at h₁
      cases h₁
      exact ⟨rfl, rfl⟩
    · rw [tick_of_fault hf] at h₁
      cases h₁
  rw [gets_bind_run, hio.1, hio.2] at h₂
  cases he : explicit.filter (· ≠ "") with
  | some name =>
    rw [he] at h₂
    obtain ⟨rfl, -⟩ := pure_ok.1 h₂
    exact .explicit he
  | none =>
    cases hv : (s.io.environ envVar).filter (· ≠ "") with
    | some name =>
      rw [he, hv] at h₂
      obtain ⟨rfl, -⟩ := pure_ok.1 h₂
      exact .environ he hv
    | none =>
      rw [he, hv] at h₂
      cases hl : s.io.login with
      | ok name =>
        rw [hl] at h₂
        obtain ⟨rfl, -⟩ := pure_ok.1 h₂
        exact .login he hv hl
      | error e =>
        rw [hl] at h₂
        dsimp only at h₂
        split_ifs at h₂ <;> exact absurd h₂ throw_ok

section

variable {w : World} {io : Io} {data : Bytes} {clock eventIds motionIds : List String}

/-! ## What does not write -/

theorem tick_serving : tick ⟨w, io.serving data clock eventIds motionIds⟩ =
    (.ok (), ⟨w, io.serving data clock eventIds motionIds⟩) := rfl

theorem query_serving {α : Type} (f : Table → α) :
    query f ⟨w, io.serving data clock eventIds motionIds⟩ =
      (.ok (f w.view), ⟨w, io.serving data clock eventIds motionIds⟩) := rfl

theorem loadDeclaration_serving (config : RuntimeConfig) (task : String) :
    loadDeclaration config task ⟨w, io.serving data clock eventIds motionIds⟩ =
      (getPaaDeclaration config w.directory task,
        ⟨w, io.serving data clock eventIds motionIds⟩) := rfl

theorem newCreatedAt_serving (createdAt : String) :
    newCreatedAt ⟨w, io.serving data (createdAt :: clock) eventIds motionIds⟩ =
      (.ok createdAt, ⟨w, io.serving data clock eventIds motionIds⟩) := rfl

theorem newEventId_serving (id : String) :
    newEventId ⟨w, io.serving data clock (id :: eventIds) motionIds⟩ =
      (.ok id, ⟨w, io.serving data clock eventIds motionIds⟩) := rfl

theorem newMotionId_serving (id : String) :
    newMotionId ⟨w, io.serving data clock eventIds (id :: motionIds)⟩ =
      (.ok id, ⟨w, io.serving data clock eventIds motionIds⟩) := rfl

theorem resolveActor_serving {explicit : Option String} {envVar actor : String}
    (h : io.Names explicit envVar actor) :
    resolveActor explicit envVar ⟨w, io.serving data clock eventIds motionIds⟩ =
      (.ok actor, ⟨w, io.serving data clock eventIds motionIds⟩) := by
  have hio : ∀ {s : Session}, tick s = (.ok (), s) → s.io.environ = io.environ →
      s.io.login = io.login → resolveActor explicit envVar s = (.ok actor, s) := by
    intro s htick henviron hlogin
    unfold resolveActor
    rw [bind_run, htick]
    dsimp only
    rw [gets_bind_run, henviron, hlogin]
    cases h with
    | explicit h => rw [h]; rfl
    | environ hnone h => rw [hnone, h]; rfl
    | login hnone hunset h => rw [hnone, hunset, h]; rfl
  exact hio tick_serving rfl rfl

theorem getLatestPositionChangedEvent_serving {t : Triple} (ht : IsInt64 t.declarationVersion) :
    getLatestPositionChangedEvent t ⟨w, io.serving data clock eventIds motionIds⟩ =
      (.ok (latestPositionChanged t w.view), ⟨w, io.serving data clock eventIds motionIds⟩) := by
  have hbind : ∀ v ∈ some t.declarationVersion, IsInt64 v := by
    rintro _ ⟨⟩
    exact ht
  exact require_bind_of hbind _ _ _

theorem getPositionChangedEventBefore_serving {t : Triple} (ht : IsInt64 t.declarationVersion)
    (createdAt eventId : String) :
    getPositionChangedEventBefore t createdAt eventId
        ⟨w, io.serving data clock eventIds motionIds⟩ =
      (.ok (positionChangedBefore t (toLex (createdAt, eventId)) w.view),
        ⟨w, io.serving data clock eventIds motionIds⟩) := by
  have hbind : ∀ v ∈ some t.declarationVersion, IsInt64 v := by
    rintro _ ⟨⟩
    exact ht
  exact require_bind_of hbind _ _ _

theorem foldCurrentPosition_serving {d : PaaTaskDeclaration} (hv : IsInt64 d.version)
    (scope : Option String) :
    foldCurrentPosition d scope ⟨w, io.serving data clock eventIds motionIds⟩ =
      (.ok (positionIn w.view d scope, latestPositionChanged (d.triple scope) w.view),
        ⟨w, io.serving data clock eventIds motionIds⟩) := by
  unfold foldCurrentPosition
  rw [bind_run, getLatestPositionChangedEvent_serving hv]
  rfl

/-! ## The transaction -/

theorem begin_serving (hnone : w.working = none) (hlock : w.locked = false) :
    begin_ true ⟨w, io.serving data clock eventIds motionIds⟩ =
      (.ok (), ⟨w.setWorking (some w.committed), io.serving data clock eventIds motionIds⟩) :=
  begin_of_quiet rfl hnone fun _ => hlock

/-- A block whose body returns commits what it has written. -/
theorem closing_serving {α : Type} {body : Py α} {s : Session} {a : α}
    (h : body s = (.ok a, ⟨w, io.serving data clock eventIds motionIds⟩)) :
    closing body s = (.ok a, ⟨w.commitAs w.view, io.serving data clock eventIds motionIds⟩) := by
  unfold closing
  rw [bind_run, rollbackOnError_ok.2 h]
  rfl

theorem insertAutonomyEvent_serving {t : Table} {e : AutonomyEvent} (hlock : w.locked = false)
    (hfits : Fits t e) :
    insertAutonomyEvent e.columns
        ⟨w.setWorking (some t), io.serving data clock eventIds motionIds⟩ =
      (.ok (), ⟨w.setWorking (some (t ++ [e])), io.serving data clock eventIds motionIds⟩) := by
  have hbind : ∀ v ∈ e.columns.declarationVersion, IsInt64 v := by
    rintro _ ⟨⟩
    exact hfits.version
  have hrow : autonomyEvents.insertRow t e.columns = .ok (t ++ [e]) :=
    GuardedTable.insertRow_ok.2 ⟨e, asRow_ok.2 rfl, violated_eq_none_iff.2 hfits.unique, rfl⟩
  unfold insertAutonomyEvent
  rw [gets_bind_run]
  dsimp only [World.setWorking_working]
  rw [bindInteger, require_bind_of hbind, bind_run, tick_serving]
  dsimp only
  rw [gets_bind_run]
  refine (require_bind_of hlock _ _ _).trans ?_
  rw [hrow]
  rfl

/-- Recording a row that fits, under the id and at the time served. -/
theorem recordEvent_serving {t : Table} {row : String → String → AutonomyEvent}
    {id createdAt : String} (hlock : w.locked = false) (hfits : Fits t (row id createdAt)) :
    recordEvent row ⟨w.setWorking (some t),
        io.serving data (createdAt :: clock) (id :: eventIds) motionIds⟩ =
      (.ok (), ⟨w.setWorking (some (t ++ [row id createdAt])),
        io.serving data clock eventIds motionIds⟩) := by
  unfold recordEvent
  rw [bind_run, newEventId_serving]
  dsimp only
  rw [bind_run, newCreatedAt_serving]
  exact insertAutonomyEvent_serving hlock hfits

/-! ## Storing evidence -/

/-- To publish again what is published changes nothing. -/
theorem Disk.publish_self {disk : Disk} {d : Digest} {content : Bytes}
    (h : disk.published d = some content) : disk.publish d content = disk := by
  unfold Disk.publish
  rw [← h, Function.update_eq_self]

theorem Disk.setTemp_free {disk : Disk} {tmp : TempName} (h : disk.temps tmp = none)
    (d : Digest) (content content' : Bytes) :
    (((disk.setTemp tmp (some content)).setTemp tmp (some content')).publish d content').setTemp
      tmp none = disk.publish d content' := by
  unfold Disk.setTemp Disk.publish
  simp only [Function.update_idem]
  rw [← h, Function.update_eq_self]

theorem acceptStored_serving {root : String} {content : Bytes} {d : Digest}
    (h : w.disk.published d = some content) :
    acceptStored root content d ⟨w, io.serving data clock eventIds motionIds⟩ =
      (.ok (evidenceRefFor d.hex, d.hex), ⟨w, io.serving data clock eventIds motionIds⟩) := by
  unfold acceptStored
  rw [bind_run, tick_serving]
  dsimp only
  rw [gets_bind_run, monadLift_run, acceptExisting_ok.2 ⟨h, rfl⟩]

/-- The name served is free. -/
theorem mkstemp_serving {d : Digest} {n : ℕ} (hfree : w.disk.temps ⟨d, ""⟩ = none) :
    mkstemp d (n + 1) ⟨w, io.serving data clock eventIds motionIds⟩ =
      (.ok ⟨d, ""⟩, ⟨{ w with disk := w.disk.setTemp ⟨d, ""⟩ (some []) },
        io.serving data clock eventIds motionIds⟩) := by
  unfold mkstemp
  have htaken : ¬ (w.disk.temps ⟨d, ""⟩).isSome := by
    rw [hfree]
    exact Bool.false_ne_true
  exact congrFun (if_neg htaken) _

variable [Hashlib] {content : Bytes}

/-- The temporary file becomes the artifact. -/
theorem publishTemp_serving {root : String} {tmp : TempName}
    (hp : w.disk.published (computeSha256 content) = none) :
    publishTemp root content tmp ⟨w, io.serving data clock eventIds motionIds⟩ =
      (.ok (evidenceRefFor (computeSha256 content).hex, (computeSha256 content).hex),
        ⟨{ w with disk := (w.disk.setTemp tmp (some content)).publish (computeSha256 content) content },
          io.serving data clock eventIds motionIds⟩) := by
  have hlink : link tmp (computeSha256 content)
      ⟨{ w with disk := w.disk.setTemp tmp (some content) },
        io.serving data clock eventIds motionIds⟩ =
      (.ok true,
        ⟨{ w with disk := (w.disk.setTemp tmp (some content)).publish (computeSha256 content) content },
          io.serving data clock eventIds motionIds⟩) := by
    have hnew : ¬ ((w.disk.setTemp tmp (some content)).published (computeSha256 content)).isSome := by
      rw [Disk.setTemp_published, hp]
      exact nofun
    have hcontent : (w.disk.setTemp tmp (some content)).temps tmp = some content :=
      Function.update_self ..
    unfold link
    rw [bind_run, tick_serving]
    dsimp only
    rw [gets_bind_run]
    refine (congrFun (if_neg hnew) _).trans ?_
    dsimp only
    rw [hcontent]
    rfl
  unfold publishTemp linkOrAccept
  refine bind_ok.2 ⟨(), _, rfl, ?_⟩
  exact bind_ok.2 ⟨true, _, hlink, rfl⟩

/-- Evidence is published, unless it is there, and its temporary file is gone. -/
theorem storeEvidence_serving (root : String) (hfree : ∀ tmp, w.disk.temps tmp = none)
    (hagrees : ∀ c, w.disk.published (computeSha256 content) = some c → c = content) :
    storeEvidence root content ⟨w, io.serving data clock eventIds motionIds⟩ =
      (.ok (evidenceRefFor (computeSha256 content).hex, (computeSha256 content).hex),
        ⟨{ w with disk := w.disk.publish (computeSha256 content) content },
          io.serving data clock eventIds motionIds⟩) := by
  unfold storeEvidence
  refine bind_ok.2 ⟨(), _, tick_serving, bind_ok.2 ⟨(), _, tick_serving, ?_⟩⟩
  rw [gets_bind_run]
  cases hp : w.disk.published (computeSha256 content) with
  | some c =>
    obtain rfl := hagrees c hp
    rw [Disk.publish_self hp]
    exact (congrFun (if_pos rfl) _).trans (acceptStored_serving hp)
  | none =>
    refine (congrFun (if_neg (by exact nofun)) _).trans ?_
    have hfree := hfree ⟨computeSha256 content, ""⟩
    refine bind_ok.2 ⟨(), _, tick_serving, bind_ok.2 ⟨_, _, mkstemp_serving hfree, ?_⟩⟩
    have hpublish : publishTemp root content ⟨computeSha256 content, ""⟩
        ⟨{ w with disk := w.disk.setTemp ⟨computeSha256 content, ""⟩ (some []) },
          io.serving data clock eventIds motionIds⟩ = _ := publishTemp_serving hp
    unfold Prog.ensuring
    rw [hpublish, ← Disk.setTemp_free hfree _ [] content]
    rfl

end

/-! ## Propose -/

section

variable {w : World} {io : Io} {data : Bytes} {clock eventIds motionIds : List String}
  {config : RuntimeConfig} {d : PaaTaskDeclaration}

theorem proposeLoad_serving {args : ProposeArgs} {target : AutonomyPosition}
    (hd : getPaaDeclaration config w.directory args.task = .ok d) (hscope : d.Permits args.scope)
    (htarget : AutonomyPosition.ofText? args.toPosition = some target) :
    proposeLoad config args ⟨w, io.serving data clock eventIds motionIds⟩ =
      (.ok (d, target), ⟨w, io.serving data clock eventIds motionIds⟩) := by
  have hpermits := (validateScope_ok (u := ())).2 hscope
  refine bind_ok.2 ⟨d, _, (loadDeclaration_serving config args.task).trans (by rw [hd]), ?_⟩
  refine bind_ok.2 ⟨(), _, liftM_ok.2 ⟨hpermits, rfl⟩, ?_⟩
  exact bind_ok.2 ⟨target, _, liftM_ok.2 ⟨requireSome_ok.2 htarget, rfl⟩, rfl⟩

theorem proposeCheck_serving {scope : Option String} {target : AutonomyPosition}
    (hv : IsInt64 d.version) (hdeclares : d.Declares (positionIn w.view d scope) target) :
    proposeCheck d scope target ⟨w, io.serving data clock eventIds motionIds⟩ =
      (.ok (), ⟨w, io.serving data clock eventIds motionIds⟩) :=
  bind_ok.2 ⟨_, _, foldCurrentPosition_serving hv scope,
    liftM_ok.2 ⟨requireDeclaredTransition_ok.2 hdeclares, rfl⟩⟩

theorem proposeRead_serving (path : String) (hne : data ≠ []) :
    proposeRead path ⟨w, io.serving data clock eventIds motionIds⟩ =
      (.ok data, ⟨w, io.serving data clock eventIds motionIds⟩) :=
  bind_ok.2 ⟨data, _, rfl, bind_ok.2 ⟨(), _, liftM_ok.2 ⟨require_ok.2 hne, rfl⟩, rfl⟩⟩

/-- The block of `propose` writes the proposal at the position in force. -/
theorem proposeBlock_serving {p : Draft} {t : Table} {id createdAt : String}
    (hlock : w.locked = false) (hv : IsInt64 p.declaration.version)
    (hdeclares : p.declaration.Declares (positionIn t p.declaration p.scope) p.toPosition)
    (hfits : Fits t (p.proposal (positionIn t p.declaration p.scope) id createdAt)) :
    proposeBlock p ⟨w.setWorking (some t),
        io.serving data (createdAt :: clock) (id :: eventIds) motionIds⟩ =
      (.ok (eventsForMotion p.motionId
          (t ++ [p.proposal (positionIn t p.declaration p.scope) id createdAt])),
        ⟨w.setWorking (some (t ++ [p.proposal (positionIn t p.declaration p.scope) id createdAt])),
          io.serving data clock eventIds motionIds⟩) := by
  refine bind_ok.2 ⟨_, _, foldCurrentPosition_serving hv p.scope, ?_⟩
  refine bind_ok.2 ⟨(), _, liftM_ok.2 ⟨requireDeclaredTransition_ok.2 hdeclares, rfl⟩, ?_⟩
  exact bind_ok.2 ⟨(), _, recordEvent_serving hlock hfits, query_serving _⟩

/-- What a `propose` has gathered when it comes to its block. -/
structure Draft.Gathered [Hashlib] (config : RuntimeConfig) (directory : Directory)
    (args : ProposeArgs) (data : Bytes) (p : Draft) : Prop where
  loaded : getPaaDeclaration config directory args.task = .ok p.declaration
  permits : p.declaration.Permits args.scope
  target : AutonomyPosition.ofText? args.toPosition = some p.toPosition
  scope : p.scope = args.scope
  reason : p.reason = args.reason
  nonempty : data ≠ []
  evidenceRef : p.evidenceRef = evidenceRefFor (computeSha256 data).hex
  evidenceSha256 : p.evidenceSha256 = (computeSha256 data).hex
  actor : ∃ io : Io, io.Names args.actor config.actorEnvVar p.actor

/-- The store takes evidence: no writer has left a file, and no other bytes stand at its address. -/
structure Disk.Takes [Hashlib] (disk : Disk) (data : Bytes) : Prop where
  free : ∀ tmp, disk.temps tmp = none
  agrees : ∀ content, disk.published (computeSha256 data) = some content → content = data

/-- A world in which no transaction is open. -/
structure World.Idle (w : World) : Prop where
  closed : w.working = none
  unlocked : w.locked = false

variable [Hashlib]

/-- A `propose` by itself answers as its block does from the same table. -/
theorem propose_alone {args : ProposeArgs} {p : Draft} {e : AutonomyEvent} {m : Motion}
    (h : p.Gathered config w.directory args data) (hw : w.Idle) (hdisk : w.disk.Takes data)
    (hpro : Proposes p w.committed e)
    (hm : projectMotion (eventsForMotion p.motionId (w.committed ++ [e])) = .ok m) :
    ∃ io s, propose config args ⟨w, io⟩ = (.ok m, s) ∧
      s.world = { w with disk := w.disk.publish (computeSha256 data) data }.commitAs
        (w.committed ++ [e]) := by
  obtain ⟨io, hnames⟩ := h.actor
  obtain ⟨id, createdAt, rfl⟩ := hpro.row
  have hview : w.view = w.committed := World.view_of_closed hw.closed
  have hv : IsInt64 p.declaration.version := hpro.fits.version
  have hcheck := hpro.declared
  rw [h.scope] at hcheck
  have hstored := @storeEvidence_serving w io data [createdAt] [id] [p.motionId] _ data
    config.evidenceRoot hdisk.free hdisk.agrees
  rw [← h.evidenceRef, ← h.evidenceSha256] at hstored
  have hdraft : (⟨p.declaration, args.scope, p.toPosition, p.evidenceRef, p.evidenceSha256, p.actor,
      args.reason, p.motionId⟩ : Draft) = p := by
    rw [← h.scope, ← h.reason]
  refine ⟨io.serving data [createdAt] [id] [p.motionId], ⟨_, io.serving data [] [] []⟩, ?_, rfl⟩
  unfold propose
  refine bind_ok.2 ⟨_, _, proposeLoad_serving h.loaded h.permits h.target, ?_⟩
  refine bind_ok.2 ⟨(), _, proposeCheck_serving hv (hview ▸ hcheck), ?_⟩
  refine bind_ok.2 ⟨data, _, proposeRead_serving args.evidencePath h.nonempty, ?_⟩
  refine bind_ok.2 ⟨_, _, hstored, ?_⟩
  refine bind_ok.2 ⟨(p.actor, p.motionId), _, bind_ok.2 ⟨p.actor, _, resolveActor_serving hnames,
    bind_ok.2 ⟨p.motionId, _, newMotionId_serving p.motionId, rfl⟩⟩, ?_⟩
  dsimp only
  rw [hdraft]
  refine bind_ok.2 ⟨_, _, bind_ok.2 ⟨(), _, begin_serving hw.closed hw.unlocked, ?_⟩,
    liftM_ok.2 ⟨hm, rfl⟩⟩
  refine closing_serving (proposeBlock_serving ?_ hv hpro.declared hpro.fits)
  exact hw.unlocked

end

/-! ## Approve and reject -/

section

variable {w : World} {io : Io} {data : Bytes} {clock eventIds motionIds : List String}
  {config : RuntimeConfig} {args : MotionArgs} {actor : String} {t : Table} {p : AutonomyEvent}

theorem reasonedActor_serving {purpose : String} (hreason : args.reason ≠ "")
    (hnames : io.Names args.actor config.actorEnvVar actor) :
    reasonedActor config purpose args.reason args.actor
        ⟨w, io.serving data clock eventIds motionIds⟩ =
      (.ok actor, ⟨w, io.serving data clock eventIds motionIds⟩) :=
  bind_ok.2 ⟨(), _, liftM_ok.2 ⟨require_ok.2 hreason, rfl⟩, resolveActor_serving hnames⟩

/-- The rows of a motion that is only proposed. -/
theorem byEvent_pending {m : String} (hp : motionRows m t = [p]) (hk : p.event = .motionProposed)
    (k : AutonomyEventType) : byEvent (eventsForMotion m t) k =
      if k = .motionProposed then some p else none := by
  rw [byEvent_of_perm (.of_eq hp) (List.length_filter_le _ _)]
  by_cases h : k = .motionProposed
  · rw [if_pos h, h]
    simp [hk]
  · rw [if_neg h]
    have hne : p.event ≠ k := by
      rw [hk]
      exact Ne.symm h
    simp [hne]

/-- A rejection of a pending motion by itself. -/
theorem reject_alone {r : AutonomyEvent} {m : Motion} (hreason : args.reason ≠ "")
    (hactor : ∃ io : Io, io.Names args.actor config.actorEnvVar actor) (hw : w.Idle)
    (hp : motionRows args.motionId w.committed = [p]) (h : Rejects args actor w.committed p r)
    (hm : projectMotion (eventsForMotion args.motionId (w.committed ++ [r])) = .ok m) :
    ∃ io s, reject config args ⟨w, io⟩ = (.ok m, s) ∧
      s.world = w.commitAs (w.committed ++ [r]) := by
  obtain ⟨io, hnames⟩ := hactor
  obtain ⟨id, createdAt, rfl⟩ := h.row
  have hfound := byEvent_pending hp h.pending.kind
  refine ⟨io.serving [] [createdAt] [id] [], ⟨_, io.serving [] [] [] []⟩, ?_, rfl⟩
  refine bind_ok.2 ⟨actor, _, reasonedActor_serving hreason hnames, ?_⟩
  refine bind_ok.2 ⟨.fellThrough _, _, bind_ok.2 ⟨(), _, begin_serving hw.closed hw.unlocked, ?_⟩,
    liftM_ok.2 ⟨hm, rfl⟩⟩
  refine closing_serving (w := w.setWorking (some _)) ?_
  refine bind_ok.2 ⟨_, _, query_serving _, ?_⟩
  refine bind_ok.2 ⟨p, _, liftM_ok.2 ⟨requireSome_ok.2 (hfound _), rfl⟩, ?_⟩
  dsimp only [World.setWorking_view]
  simp only [hfound]
  refine bind_ok.2 ⟨(), _, recordEvent_serving hw.unlocked h.fits, ?_⟩
  exact bind_ok.2 ⟨_, _, query_serving _, rfl⟩

/-- A call on an open transaction that nothing has been written in, committed, leaves the world. -/
theorem World.Idle.commitAs_committed (hw : w.Idle) : w.commitAs w.committed = w := by
  unfold World.commitAs
  rw [← hw.closed]

/-- A repeated rejection by itself. -/
theorem reject_again {r : AutonomyEvent} {m : Motion} (hreason : args.reason ≠ "")
    (hactor : ∃ io : Io, io.Names args.actor config.actorEnvVar actor) (hw : w.Idle)
    (h : Rejected w.committed args.motionId p r)
    (hm : projectMotion (eventsForMotion args.motionId w.committed) = .ok m) :
    ∃ io s, reject config args ⟨w, io⟩ = (.ok m, s) ∧ s.world = w := by
  obtain ⟨io, hnames⟩ := hactor
  refine ⟨io.serving [] [] [] [], ⟨w.commitAs w.committed, io.serving [] [] [] []⟩, ?_,
    hw.commitAs_committed⟩
  refine bind_ok.2 ⟨actor, _, reasonedActor_serving hreason hnames, ?_⟩
  refine bind_ok.2 ⟨.returned m, _, bind_ok.2 ⟨(), _, begin_serving hw.closed hw.unlocked, ?_⟩, rfl⟩
  refine closing_serving (w := w.setWorking (some _)) ?_
  refine bind_ok.2 ⟨_, _, query_serving _, ?_⟩
  refine bind_ok.2 ⟨p, _, liftM_ok.2 ⟨requireSome_ok.2 h.proposal, rfl⟩, ?_⟩
  dsimp only [World.setWorking_view]
  simp only [h.rejection, h.approval, h.change]
  rw [if_pos (sameIdentity_iff.2 h.identity)]
  exact bind_ok.2 ⟨m, _, liftM_ok.2 ⟨hm, rfl⟩, rfl⟩

variable [Hashlib]

theorem approveChecks_serving (h : Approvable config w.directory w.disk w.view p) :
    approveChecks config p ⟨w, io.serving data clock eventIds motionIds⟩ =
      (.ok (), ⟨w, io.serving data clock eventIds motionIds⟩) := by
  obtain ⟨bytes, hbytes⟩ := h.verified
  obtain ⟨d, hd, hversion, hdeclares⟩ := h.declared
  refine bind_ok.2 ⟨(), _, tick_serving, ?_⟩
  rw [gets_bind_run]
  refine bind_ok.2 ⟨bytes, _, liftM_ok.2 ⟨hbytes, rfl⟩, ?_⟩
  refine bind_ok.2 ⟨d, _, (loadDeclaration_serving config p.task).trans (by rw [hd]), ?_⟩
  refine bind_ok.2 ⟨(), _, liftM_ok.2 ⟨require_ok.2 hversion, rfl⟩, ?_⟩
  refine bind_ok.2 ⟨(), _, liftM_ok.2 ⟨requireDeclaredTransition_ok.2 hdeclares, rfl⟩, ?_⟩
  refine bind_ok.2 ⟨_, _, getPositionChangedEventBefore_serving h.version _ _, ?_⟩
  refine bind_ok.2 ⟨_, _, getLatestPositionChangedEvent_serving h.version, ?_⟩
  exact liftM_ok.2 ⟨require_ok.2 h.baseline, rfl⟩

/-- An approval of a pending motion by itself. -/
theorem approve_alone {a c : AutonomyEvent} {m : Motion} (hreason : args.reason ≠ "")
    (hactor : ∃ io : Io, io.Names args.actor config.actorEnvVar actor) (hw : w.Idle)
    (hp : motionRows args.motionId w.committed = [p])
    (h : Approves config w.directory w.disk args actor w.committed p a c)
    (hm : projectMotion (eventsForMotion args.motionId (w.committed ++ [a, c])) = .ok m) :
    ∃ io s, approve config args ⟨w, io⟩ = (.ok m, s) ∧
      s.world = w.commitAs (w.committed ++ [a, c]) := by
  obtain ⟨io, hnames⟩ := hactor
  obtain ⟨ida, ata, rfl⟩ := h.approvedRow
  obtain ⟨idc, atc, rfl⟩ := h.changedRow
  obtain ⟨hfitsa, hfitsc, -⟩ := h.fits
  have hfound := byEvent_pending hp h.pending.kind
  rw [List.append_cons] at hm ⊢
  refine ⟨io.serving [] [ata, atc] [ida, idc] [], ⟨_, io.serving [] [] [] []⟩, ?_, rfl⟩
  refine bind_ok.2 ⟨actor, _, reasonedActor_serving hreason hnames, ?_⟩
  refine bind_ok.2 ⟨.fellThrough _, _, bind_ok.2 ⟨(), _, begin_serving hw.closed hw.unlocked, ?_⟩,
    liftM_ok.2 ⟨hm, rfl⟩⟩
  refine closing_serving (w := w.setWorking (some _)) ?_
  refine bind_ok.2 ⟨_, _, query_serving _, ?_⟩
  refine bind_ok.2 ⟨p, _, liftM_ok.2 ⟨requireSome_ok.2 (hfound _), rfl⟩, ?_⟩
  dsimp only [World.setWorking_view]
  simp only [hfound]
  refine bind_ok.2 ⟨(), _, approveChecks_serving h.checks, ?_⟩
  refine bind_ok.2 ⟨(), _, bind_ok.2 ⟨(), _, recordEvent_serving hw.unlocked hfitsa,
    bind_ok.2 ⟨(), _, recordEvent_serving hw.unlocked hfitsc, rfl⟩⟩, ?_⟩
  exact bind_ok.2 ⟨_, _, query_serving _, rfl⟩

/-- A repeated approval by itself. -/
theorem approve_again {a c : AutonomyEvent} {m : Motion} (hreason : args.reason ≠ "")
    (hactor : ∃ io : Io, io.Names args.actor config.actorEnvVar actor) (hw : w.Idle)
    (h : Executed w.committed args.motionId p a c)
    (hm : projectMotion (eventsForMotion args.motionId w.committed) = .ok m) :
    ∃ io s, approve config args ⟨w, io⟩ = (.ok m, s) ∧ s.world = w := by
  obtain ⟨io, hnames⟩ := hactor
  refine ⟨io.serving [] [] [] [], ⟨w.commitAs w.committed, io.serving [] [] [] []⟩, ?_,
    hw.commitAs_committed⟩
  refine bind_ok.2 ⟨actor, _, reasonedActor_serving hreason hnames, ?_⟩
  refine bind_ok.2 ⟨.returned m, _, bind_ok.2 ⟨(), _, begin_serving hw.closed hw.unlocked, ?_⟩, rfl⟩
  refine closing_serving (w := w.setWorking (some _)) ?_
  refine bind_ok.2 ⟨_, _, query_serving _, ?_⟩
  refine bind_ok.2 ⟨p, _, liftM_ok.2 ⟨requireSome_ok.2 h.proposal, rfl⟩, ?_⟩
  dsimp only [World.setWorking_view]
  simp only [h.rejection, h.approval, h.change]
  rw [if_pos ⟨sameIdentity_iff.2 h.identity.1, sameIdentity_iff.2 h.identity.2⟩]
  exact bind_ok.2 ⟨m, _, liftM_ok.2 ⟨hm, rfl⟩, rfl⟩

end

/-! ## Demote -/

section

variable {w : World} {io : Io} {content data : Bytes} {clock eventIds motionIds : List String}
  {config : RuntimeConfig} {args : DemoteArgs} {d : PaaTaskDeclaration} {actor : String}
  {fromPosition : AutonomyPosition}

/-- What a `demote` has gathered before its block. -/
structure DemoteArgs.Gathered (config : RuntimeConfig) (directory : Directory) (args : DemoteArgs)
    (d : PaaTaskDeclaration) (actor : String) : Prop where
  reason : args.reason ≠ ""
  loaded : getPaaDeclaration config directory args.task = .ok d
  permits : d.Permits args.scope
  actor : ∃ io : Io, io.Names args.actor config.actorEnvVar actor

theorem demoteLoad_serving (h : args.Gathered config w.directory d actor)
    (hnames : io.Names args.actor config.actorEnvVar actor) :
    demoteLoad config args ⟨w, io.serving data clock eventIds motionIds⟩ =
      (.ok (d, actor), ⟨w, io.serving data clock eventIds motionIds⟩) := by
  have hpermits := (validateScope_ok (u := ())).2 h.permits
  refine bind_ok.2 ⟨(), _, liftM_ok.2 ⟨require_ok.2 h.reason, rfl⟩, ?_⟩
  refine bind_ok.2 ⟨d, _, (loadDeclaration_serving config args.task).trans (by rw [h.loaded]), ?_⟩
  refine bind_ok.2 ⟨(), _, liftM_ok.2 ⟨hpermits, rfl⟩, ?_⟩
  exact bind_ok.2 ⟨actor, _, resolveActor_serving hnames, rfl⟩

theorem resolveCurrentPosition_serving {task : String} {scope : Option String}
    (hd : getPaaDeclaration config w.directory task = .ok d) (hscope : d.Permits scope)
    (hv : IsInt64 d.version) :
    resolveCurrentPosition config task scope ⟨w, io.serving data clock eventIds motionIds⟩ =
      (.ok (resolvedPosition d scope (latestPositionChanged (d.triple scope) w.view)),
        ⟨w, io.serving data clock eventIds motionIds⟩) := by
  have hpermits := (validateScope_ok (u := ())).2 hscope
  refine bind_ok.2 ⟨d, _, (loadDeclaration_serving config task).trans (by rw [hd]), ?_⟩
  refine bind_ok.2 ⟨(), _, liftM_ok.2 ⟨hpermits, rfl⟩, ?_⟩
  exact bind_ok.2 ⟨_, _, foldCurrentPosition_serving hv scope, rfl⟩

/-- The position is resolved and the evidence generated. -/
theorem demoteResolve_serving {generatedAt : String}
    (h : args.Gathered config w.directory d actor) (hv : IsInt64 d.version)
    (hfrom : fromPosition = positionIn w.view d args.scope)
    (hsource : fromPosition = d.demotion.fromPosition) :
    demoteResolve config args d actor
        ⟨w, io.serving data (generatedAt :: clock) eventIds motionIds⟩ =
      (.ok (fromPosition,
          canonicalDemotionEvidence d args.scope actor args.reason args.sourceRows generatedAt),
        ⟨w, io.serving data clock eventIds motionIds⟩) := by
  refine bind_ok.2 ⟨_, _, resolveCurrentPosition_serving h.loaded h.permits hv, ?_⟩
  have hcurrent : (resolvedPosition d args.scope
      (latestPositionChanged (d.triple args.scope) w.view)).currentPosition = fromPosition :=
    hfrom.symm
  rw [hcurrent]
  refine bind_ok.2 ⟨(), _, liftM_ok.2 ⟨require_ok.2 hsource, rfl⟩, ?_⟩
  exact bind_ok.2 ⟨generatedAt, _, newCreatedAt_serving generatedAt, rfl⟩

/-- The three rows of a demotion are recorded, under the ids and at the times that they name. -/
theorem demoteRecord_serving {ref sha motionId : String} {t : Table} {p a c : AutonomyEvent}
    (hlock : w.locked = false) (h : Demotes args d actor fromPosition ref sha motionId t p a c) :
    demoteRecord args d actor fromPosition ref sha ⟨w.setWorking (some t), io.serving data
        (p.createdAt :: a.createdAt :: c.createdAt :: clock) (p.id :: a.id :: c.id :: eventIds)
        (motionId :: motionIds)⟩ =
      (.ok (eventsForMotion motionId (t ++ [p, a, c])),
        ⟨w.setWorking (some (t ++ [p, a, c])),
          io.serving data clock eventIds motionIds⟩) := by
  obtain ⟨idp, atp, rfl⟩ := h.proposedRow
  obtain ⟨ida, ata, rfl⟩ := h.approvedRow
  obtain ⟨idc, atc, rfl⟩ := h.changedRow
  obtain ⟨hfitsp, hfitsa, hfitsc, -⟩ := h.fits
  refine bind_ok.2 ⟨motionId, _, newMotionId_serving motionId, ?_⟩
  rw [List.append_cons, List.append_cons _ _ [_]]
  refine bind_ok.2 ⟨(), _, bind_ok.2 ⟨(), _, recordEvent_serving hlock hfitsp,
    bind_ok.2 ⟨(), _, recordEvent_serving hlock hfitsa,
      bind_ok.2 ⟨(), _, recordEvent_serving hlock hfitsc, rfl⟩⟩⟩, ?_⟩
  exact query_serving _

variable [Hashlib]

/-- The block of `demote`: evidence is stored, and the rows are recorded beside it. -/
theorem demoteBlock_serving {generatedAt ref sha motionId : String} {t : Table}
    {p a c : AutonomyEvent} (h : args.Gathered config w.directory d actor)
    (hlock : w.locked = false) (hdisk : w.disk.Takes content)
    (hfrom : fromPosition = positionIn t d args.scope)
    (hsource : fromPosition = d.demotion.fromPosition)
    (hcontent : content =
      canonicalDemotionEvidence d args.scope actor args.reason args.sourceRows generatedAt)
    (href : ref = evidenceRefFor (computeSha256 content).hex)
    (hsha : sha = (computeSha256 content).hex)
    (hdem : Demotes args d actor fromPosition ref sha motionId t p a c) :
    demoteBlock config args d actor ⟨w.setWorking (some t), io.serving data
        (generatedAt :: p.createdAt :: a.createdAt :: c.createdAt :: clock)
        (p.id :: a.id :: c.id :: eventIds) (motionId :: motionIds)⟩ =
      (.ok (eventsForMotion motionId (t ++ [p, a, c])),
        ⟨{ w with disk := w.disk.publish (computeSha256 content) content }.setWorking
          (some (t ++ [p, a, c])), io.serving data clock eventIds motionIds⟩) := by
  have hv : IsInt64 d.version := by
    obtain ⟨id, createdAt, rfl⟩ := hdem.proposedRow
    exact hdem.fits.1.version
  refine bind_ok.2 ⟨_, _, demoteResolve_serving (w := w.setWorking (some t)) h hv hfrom hsource, ?_⟩
  rw [← hcontent]
  refine bind_ok.2 ⟨_, _, storeEvidence_serving (w := w.setWorking (some t)) config.evidenceRoot
    hdisk.free hdisk.agrees, ?_⟩
  rw [← href, ← hsha]
  exact demoteRecord_serving
    (w := { w with disk := w.disk.publish (computeSha256 content) content }) hlock hdem

/-- A `demote` by itself answers as its block does from the same table. -/
theorem demote_alone {p a c : AutonomyEvent} {m : Motion} {ref sha : String}
    (h : args.Gathered config w.directory d actor) (hw : w.Idle) (hdisk : w.disk.Takes content)
    (hfrom : fromPosition = positionIn w.committed d args.scope)
    (hsource : fromPosition = d.demotion.fromPosition) (hcontent : GeneratedFor args d actor content)
    (href : ref = evidenceRefFor (computeSha256 content).hex)
    (hsha : sha = (computeSha256 content).hex)
    (hdem : Demotes args d actor fromPosition ref sha m.motionId w.committed p a c)
    (hm : projectMotion (eventsForMotion m.motionId (w.committed ++ [p, a, c])) = .ok m) :
    ∃ io s, demote config args ⟨w, io⟩ = (.ok m, s) ∧
      s.world = { w with disk := w.disk.publish (computeSha256 content) content }.commitAs
        (w.committed ++ [p, a, c]) := by
  obtain ⟨io, hnames⟩ := h.actor
  obtain ⟨generatedAt, hgenerated⟩ := hcontent
  refine ⟨io.serving [] [generatedAt, p.createdAt, a.createdAt, c.createdAt] [p.id, a.id, c.id]
    [m.motionId], ⟨_, io.serving [] [] [] []⟩, ?_, rfl⟩
  refine bind_ok.2 ⟨(d, actor), _, demoteLoad_serving h hnames, ?_⟩
  refine bind_ok.2 ⟨_, _, bind_ok.2 ⟨(), _, begin_serving hw.closed hw.unlocked, ?_⟩,
    liftM_ok.2 ⟨hm, rfl⟩⟩
  exact closing_serving (demoteBlock_serving h hw.unlocked hdisk hfrom hsource hgenerated href hsha
    hdem)

end

end PaaRuntime
