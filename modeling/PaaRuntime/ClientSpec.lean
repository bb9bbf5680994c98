import PaaRuntime.System

/-!
# What a step of a client does

`Client.advance_spec` says once what a step of a client's call can do (`Advances`): it leaves the
rows alone, or commits the rows that `Commits` allows; it leaves to the others what they rely on;
and the client knows again what it must know at its new stage (`Client.Ok`) of its declaration, the
write lock and its evidence. Declarations satisfy a predicate `D`, which the histories choose.
-/

namespace PaaRuntime

open Prog

/-! ## Parts of calls -/

section Parts

variable {α β : Type}

/-- The evidence files. -/
def Session.disk (s : Session) : Disk := s.world.disk

theorem keeps_disk_of_outside {x : Py α} (h : Keeps Session.outside x) :
    Keeps Session.disk x := by
  intro s
  have hs := congrArg World.disk (h s)
  exact hs

theorem keeps_disk_of_world {x : Py α} (h : Keeps Session.world x) : Keeps Session.disk x :=
  fun s => congrArg World.disk (h s)

theorem keeps_disk_begin (immediate : Bool) : Keeps Session.disk (begin_ immediate) :=
  (keeps_disk_of_world keeps_world_tick).bind fun _ => (Keeps.gets _).bind fun _ =>
    (Keeps.lift _).bind fun _ => (Keeps.lift _).bind fun _ _ => rfl

theorem keeps_disk_rollbackOnError {body : Py α} (h : Keeps Session.disk body) :
    Keeps Session.disk (rollbackOnError body) :=
  h.tryCatch fun _ => ((keeps_disk_of_world keeps_world_tick).bind fun _ _ => rfl).bind fun _ =>
    Keeps.throw _

theorem keeps_disk_commit : Keeps Session.disk commit := by
  refine (keeps_disk_of_world keeps_world_tick).bind fun _ =>
    (keeps_disk_of_world (keeps_world_draw _ _)).bind fun outcome => ?_
  split
  · exact fun _ => rfl
  · exact Keeps.throw _
  · exact Keeps.bind (fun _ => rfl) fun _ => Keeps.throw _

theorem keeps_disk_closing {body : Py α} (h : Keeps Session.disk body) :
    Keeps Session.disk (closing body) :=
  (keeps_disk_rollbackOnError h).bind fun _ => keeps_disk_commit.bind fun _ => Keeps.pure _

/-- A block that touches only the open transaction. -/
theorem keeps_disk_block {immediate : Bool} {body : Py α} (h : Keeps Session.outside body) :
    Keeps Session.disk (begin_ immediate >>= fun _ => closing body) :=
  (keeps_disk_begin immediate).bind fun _ => keeps_disk_closing (keeps_disk_of_outside h)

theorem keeps_disk_proposeLocked (p : Draft) : Keeps Session.disk (proposeLocked p) :=
  (keeps_disk_block (keeps_outside_proposeBlock p)).bind fun _ => Keeps.lift _

theorem keeps_disk_rejectLocked (args : MotionArgs) (actor : String) :
    Keeps Session.disk (rejectLocked args actor) :=
  (keeps_disk_block (keeps_outside_rejectBlock args actor)).bind fun _ => Keeps.lift _

theorem keeps_disk_approveLocked [Hashlib] (config : RuntimeConfig) (args : MotionArgs)
    (actor : String) : Keeps Session.disk (approveLocked config args actor) :=
  (keeps_disk_block (keeps_outside_approveBlock config args actor)).bind fun _ => Keeps.lift _

theorem keeps_disk_importEvents (events : List (Except PyError EventMapping)) :
    Keeps Session.disk (importEvents events) :=
  keeps_disk_block (Keeps.forEach keeps_outside_importEvent events)

theorem keeps_disk_demoteOpen (config : RuntimeConfig) (args : DemoteArgs) (d : PaaTaskDeclaration)
    (actor : String) : Keeps Session.disk (demoteOpen config args d actor) :=
  (keeps_disk_begin true).bind fun _ =>
    keeps_disk_rollbackOnError (keeps_disk_of_world (keeps_world_demoteResolve _ _ _ _))

theorem keeps_committed_demoteOpen (config : RuntimeConfig) (args : DemoteArgs)
    (d : PaaTaskDeclaration) (actor : String) :
    Keeps Session.committed (demoteOpen config args d actor) :=
  (keeps_committed_begin true).bind fun _ =>
    keeps_committed_rollbackOnError (keeps_committed_of_world (keeps_world_demoteResolve _ _ _ _))

theorem keeps_disk_demoteClose (args : DemoteArgs) (d : PaaTaskDeclaration) (actor : String)
    (fromPosition : AutonomyPosition) (ref sha : String) :
    Keeps Session.disk (demoteClose args d actor fromPosition ref sha) :=
  (keeps_disk_closing (keeps_disk_of_outside (keeps_outside_demoteRecord _ _ _ _ _ _))).bind
    fun _ => Keeps.lift _

section

variable {config : RuntimeConfig} {args : DemoteArgs} {d : PaaTaskDeclaration} {actor ref sha : String}
  {fromPosition : AutonomyPosition} {s s' : Session}

/-- The opening of a demotion that returns holds the write lock, on the committed table. -/
theorem demoteOpen_ok {r : AutonomyPosition × Bytes}
    (h : demoteOpen config args d actor s = (.ok r, s')) :
    s.world.working = none ∧ s.world.locked = false ∧
      s'.world = s.world.setWorking (some s.world.committed) ∧ r.1 = d.demotion.fromPosition ∧
      (∃ generatedAt, r.2 =
        canonicalDemotionEvidence d args.scope actor args.reason args.sourceRows generatedAt) ∧
      ∃ d', getPaaDeclaration config s.world.directory args.task = .ok d' ∧ d'.Permits args.scope ∧
        r.1 = positionIn s.world.committed d' args.scope := by
  obtain ⟨_, s₁, h₁, h₂⟩ := bind_ok.1 h
  obtain ⟨hnone, hlock, hw₁⟩ := begin_ok h₁
  obtain ⟨hw, hfrom, hdata, d', hd', hp', hr⟩ := demoteResolve_ok (rollbackOnError_ok.1 h₂)
  rw [hw₁] at hw hd' hr
  exact ⟨hnone, hlock rfl, hw, hfrom, hdata, d', hd', hp', hr⟩

/-- Rows are only recorded in an open transaction. -/
theorem demoteRecord_working {events : Table}
    (h : demoteRecord args d actor fromPosition ref sha s = (.ok events, s')) :
    ∃ t, s.world.working = some t := by
  obtain ⟨motionId, s₁, -, hw₁, h₁⟩ := keeps_world_newMotionId.bind_ok h
  obtain ⟨_, s₂, h₂, -⟩ := bind_ok.1 h₁
  obtain ⟨_, s₃, h₃, -⟩ := bind_ok.1 h₂
  obtain ⟨rows, -, -, hrows, -⟩ := recordEvent_ok h₃
  exact ⟨rows, hw₁ ▸ hrows⟩

/-- The end of a demotion that returns has committed its three rows. -/
theorem demoteClose_ok {t : Table} {m : Motion} (hs : s.world.working = some t)
    (h : demoteClose args d actor fromPosition ref sha s = (.ok m, s')) :
    ∃ p a c, Demotes args d actor fromPosition ref sha m.motionId t p a c ∧
      s'.world = s.world.commitAs (t ++ [p, a, c]) := by
  obtain ⟨events, s₁, h₁, h₂⟩ := bind_ok.1 h
  obtain ⟨hm, rfl⟩ := liftM_ok.1 h₂
  obtain ⟨s₂, hbody, hw₁⟩ := closing_ok h₁
  obtain ⟨motionId, p, a, c, hdem, rfl, hw₂⟩ := demoteRecord_ok hs hbody
  obtain ⟨m', hm', rfl⟩ := hdem.motion
  obtain rfl : m' = m := Except.ok.inj (hm'.symm.trans hm)
  refine ⟨p, a, c, hdem, ?_⟩
  rw [hw₁, hw₂, World.setWorking_view, World.setWorking_commitAs]

theorem demoteClose_projects {events : Table}
    (h : closing (demoteRecord args d actor fromPosition ref sha) s = (.ok events, s')) :
    ∃ m, projectMotion events = .ok m := by
  obtain ⟨s₁, hbody, -⟩ := closing_ok h
  obtain ⟨t, ht⟩ := demoteRecord_working hbody
  obtain ⟨motionId, p, a, c, hdem, rfl, -⟩ := demoteRecord_ok ht hbody
  obtain ⟨m, hm, -⟩ := hdem.motion
  exact ⟨m, hm⟩

theorem demoteClose_raisesClean :
    RaisesClean Session.committed (demoteClose args d actor fromPosition ref sha) :=
  .bind_last (fun _ _ _ => closing_error
      (keeps_committed_of_outside (keeps_outside_demoteRecord _ _ _ _ _ _)))
    fun _ _ _ _ _ h => liftM_ne_error (demoteClose_projects h)

end

end Parts

/-! ## What a part finds and leaves -/

namespace Shared

variable {α Λ ρ : Type} {sh : Shared} {i : ℕ} {io : Io}

theorem session_working (h : sh.lock = some i) :
    (sh.session i io).world.working = some sh.table := if_pos h

/-- The rows that a call sees are the table. -/
theorem session_view (sh : Shared) (i : ℕ) (io : Io) : (sh.session i io).world.view = sh.table := by
  unfold World.view session
  dsimp only
  split_ifs <;> rfl

/-- Nobody holds the write lock that a client finds neither its own nor taken. -/
theorem lock_eq_none (hnone : (sh.session i io).world.working = none)
    (hlock : (sh.session i io).world.locked = false) : sh.lock = none := by
  rcases hl : sh.lock with _ | j
  · rfl
  · by_cases hji : j = i
    · subst hji
      rw [session_working hl] at hnone
      cases hnone
    · simp [session, hl, hji] at hlock

@[simp] theorem release_table (sh : Shared) (i : ℕ) : (sh.release i).table = sh.table := rfl

@[simp] theorem release_directory (sh : Shared) (i : ℕ) :
    (sh.release i).directory = sh.directory := rfl

@[simp] theorem release_disk (sh : Shared) (i : ℕ) : (sh.release i).disk = sh.disk := rfl

@[simp] theorem after_table (sh : Shared) (i : ℕ) (w : World) :
    (sh.after i w).table = w.committed := rfl

@[simp] theorem after_directory (sh : Shared) (i : ℕ) (w : World) :
    (sh.after i w).directory = sh.directory := rfl

@[simp] theorem after_disk (sh : Shared) (i : ℕ) (w : World) : (sh.after i w).disk = w.disk := rfl

theorem release_lock_of_ne {j : ℕ} (hji : j ≠ i) (h : sh.lock = some j) :
    (sh.release i).lock = some j := by
  unfold release
  rw [if_neg (by rw [h]; exact fun he => hji (Option.some.inj he))]
  exact h

/-- A client never takes the write lock from another. -/
theorem after_lock_of_ne {j : ℕ} (hji : j ≠ i) (h : sh.lock = some j) (w : World) :
    (sh.after i w).lock = some j := by
  unfold after
  dsimp only
  split_ifs
  · rw [h]; rfl
  · exact release_lock_of_ne hji h

/-- A part that leaves the world alone leaves all that is shared alone. -/
theorem after_session (sh : Shared) (i : ℕ) (io : Io) : sh.after i (sh.session i io).world = sh := by
  obtain ⟨table, directory, disk, lock⟩ := sh
  by_cases h : lock = some i
  · simp [after, session, h]
  · simp [after, session, release, h]

/-- A part goes on or raises. -/
theorem run_cases (sh : Shared) (i : ℕ) (io : Io) (x : Py α) (k : α → Stage Λ ρ) :
    (∃ a s, x (sh.session i io) = (.ok a, s) ∧ sh.run i io x k = (sh.after i s.world, k a)) ∨
      ∃ e s, x (sh.session i io) = (.error e, s) ∧
        sh.run i io x k = (sh.after i s.world, .raised e) := by
  unfold run
  rcases x (sh.session i io) with ⟨e | a, s⟩
  · exact .inr ⟨e, s, rfl, rfl⟩
  · exact .inl ⟨a, s, rfl, rfl⟩

end Shared

/-! ## What a client knows -/

/-- A declaration that a call has loaded, with its scope permitted. -/
structure Loaded (D : PaaTaskDeclaration → Prop) (task : String) (scope : Option String)
    (d : PaaTaskDeclaration) : Prop where
  known : D d
  task : d.task = task
  permits : d.Permits scope

variable [Hashlib]

/-- The reference and the digest are those of an artifact that holds exactly the data. -/
structure Stored (disk : Disk) (data : Bytes) (ref sha : String) : Prop where
  published : disk.published (computeSha256 data) = some data
  ref : ref = evidenceRefFor (computeSha256 data).hex
  sha : sha = (computeSha256 data).hex

theorem Stored.mono {disk disk' : Disk} {data : Bytes} {ref sha : String}
    (h : Stored disk data ref sha) (hext : disk.Extends disk') : Stored disk' data ref sha :=
  ⟨hext _ _ h.published, h.ref, h.sha⟩

/-- What was stored can be verified, and is what was stored. -/
theorem Stored.verify {disk : Disk} {data : Bytes} {ref sha : String}
    (h : Stored disk data ref sha) (root : String) :
    verifyEvidence root disk ref sha = .ok data := by
  rw [h.ref, h.sha]
  exact verifyEvidence_of_published h.published rfl

/-- A draft whose evidence is stored. -/
structure Draft.Ready (D : PaaTaskDeclaration → Prop) (args : ProposeArgs) (disk : Disk)
    (data : Bytes) (p : Draft) : Prop where
  loaded : Loaded D args.task args.scope p.declaration
  scope : p.scope = args.scope
  stored : Stored disk data p.evidenceRef p.evidenceSha256

theorem Draft.Ready.mono {D : PaaTaskDeclaration → Prop} {args : ProposeArgs} {disk disk' : Disk}
    {data : Bytes} {p : Draft} (h : p.Ready D args disk data) (hext : disk.Extends disk') :
    p.Ready D args disk' data := ⟨h.loaded, h.scope, h.stored.mono hext⟩

/-- The evidence that a demotion generates for itself. -/
def GeneratedFor (args : DemoteArgs) (d : PaaTaskDeclaration) (actor : String) (data : Bytes) :
    Prop :=
  ∃ generatedAt, data =
    canonicalDemotionEvidence d args.scope actor args.reason args.sourceRows generatedAt

namespace Client

/-- The evidence a client is storing. -/
def call? : Client → Option StoreCall
  | .propose _ (.running (.storing _ _ call)) => some call
  | .demote _ (.running (.storing _ _ _ call)) => some call
  | _ => none

/-- What client `i` knows at its stage. -/
def Knows (D : PaaTaskDeclaration → Prop) (i : ℕ) (sh : Shared) : Client → Prop
  | .propose args (.running (.loaded d _)) => Loaded D args.task args.scope d
  | .propose args (.running (.checked d _)) => Loaded D args.task args.scope d
  | .propose args (.running (.storing d _ _)) => Loaded D args.task args.scope d
  | .propose args (.running (.ready data p)) => p.Ready D args sh.disk data
  | .propose args (.returned r) => r.draft.Ready D args sh.disk r.data
  | .demote args (.running (.loaded d _)) => Loaded D args.task args.scope d
  | .demote args (.running (.storing d actor fromPosition call)) =>
    Loaded D args.task args.scope d ∧ sh.lock = some i ∧
      fromPosition = d.demotion.fromPosition ∧ GeneratedFor args d actor call.data
  | .demote args (.returned r) =>
    Loaded D args.task args.scope r.declaration ∧
      sh.disk.published (computeSha256 r.data) = some r.data ∧
      GeneratedFor args r.declaration r.actor r.data
  | _ => True

/-- The invariant of client `i` beside what is shared. -/
structure Ok (D : PaaTaskDeclaration → Prop) (i : ℕ) (sh : Shared) (c : Client) : Prop where
  call : ∀ call, c.call? = some call → call.Inv True sh.disk
  knows : c.Knows D i sh

/-- What a client knows stays true while artifacts stay and the write lock is not taken from it. -/
theorem Knows.mono {D : PaaTaskDeclaration → Prop} {i : ℕ} {sh sh' : Shared} {c : Client}
    (h : c.Knows D i sh) (hext : sh.disk.Extends sh'.disk)
    (hlock : sh.lock = some i → sh'.lock = some i) : c.Knows D i sh' := by
  unfold Knows at h ⊢
  split at h
  · exact h
  · exact h
  · exact h
  · exact Draft.Ready.mono h hext
  · exact Draft.Ready.mono h hext
  · exact h
  · exact ⟨h.1, hlock h.2.1, h.2.2⟩
  · exact ⟨h.1, hext _ _ h.2.1, h.2.2⟩
  · trivial

end Client

/-! ## What a step commits -/

/-- The rows that a step of a client may commit over the table it finds, and what it leaves the
client as. -/
inductive Commits (config : RuntimeConfig) (sh : Shared) : Client → Client → List AutonomyEvent → Prop
  | propose {args data p m e} (hlock : sh.lock = none) (h : Proposes p sh.table e)
      (hm : m.motionId = p.motionId) :
      Commits config sh (.propose args (.running (.ready data p)))
        (.propose args (.returned ⟨data, p, m⟩)) [e]
  | approve {args actor m p a c} (hlock : sh.lock = none)
      (h : Approves config sh.directory sh.disk args actor sh.table p a c) :
      Commits config sh (.approve args (.running (.ready actor))) (.approve args (.returned m)) [a, c]
  | reject {args actor m p r} (hlock : sh.lock = none) (h : Rejects args actor sh.table p r) :
      Commits config sh (.reject args (.running (.ready actor))) (.reject args (.returned m)) [r]
  | demote {args d actor fromPosition call ref sha left m p a c}
      (hcall : call.pc = .finished (.ok (ref, sha)) left)
      (h : Demotes args d actor fromPosition ref sha m.motionId sh.table p a c) :
      Commits config sh (.demote args (.running (.storing d actor fromPosition call)))
        (.demote args (.returned ⟨d, actor, call.data, m⟩)) [p, a, c]
  | importEvents {events written} (hlock : sh.lock = none) (h : FitsAll sh.table written) :
      Commits config sh (.importEvents events (.running ())) (.importEvents events (.returned ()))
        written

/-- What a step on the evidence leaves to another call that is responsible for no file of the
client's. -/
def Spares (disk disk' : Disk) (t t' : Option StoreCall) : Prop :=
  ∀ other : StoreCall, other.Inv True disk →
    (∀ call tmp, t = some call → other.pc.temp? = some tmp → call.pc.temp? ≠ some tmp) →
    other.Inv True disk' ∧
      ∀ call tmp, t' = some call → other.pc.temp? = some tmp → call.pc.temp? ≠ some tmp

/-- The client stores nothing, or has just begun to. -/
def Fresh (t : Option StoreCall) : Prop := ∀ call, t = some call → ∃ data, call = ⟨data, .mkdir⟩

omit [Hashlib] in
theorem fresh_none : Fresh none := nofun

omit [Hashlib] in
theorem fresh_start (data : Bytes) : Fresh (some ⟨data, .mkdir⟩) := by
  rintro _ ⟨⟩
  exact ⟨data, rfl⟩

theorem Fresh.inv {t : Option StoreCall} (h : Fresh t) (disk : Disk) :
    ∀ call, t = some call → call.Inv True disk := by
  intro call hc
  obtain ⟨data, rfl⟩ := h call hc
  exact .start True disk data

theorem spares_fresh (disk : Disk) (t : Option StoreCall) {t' : Option StoreCall} (h : Fresh t') :
    Spares disk disk t t' := by
  intro other hother _
  refine ⟨hother, fun call tmp hc _ => ?_⟩
  obtain ⟨data, rfl⟩ := h call hc
  nofun

theorem spares_effect {disk disk' : Disk} {call call' : StoreCall} {t' : Option StoreCall}
    (h : StoreCall.Effect disk call disk' call') (ht : t' = none ∨ t' = some call') :
    Spares disk disk' (some call) t' := by
  intro other hother hap
  obtain ⟨hinv, hap'⟩ := EvidenceWriters.own_stable h hother fun tmp => hap call tmp rfl
  refine ⟨hinv, fun c tmp hc => ?_⟩
  rcases ht with rfl | rfl
  · cases hc
  · cases hc
    exact hap' tmp

/-- What a step of client `i`'s call does: the directory stays, another client's write lock stays,
artifacts stay, other calls find their files, the client's own invariant holds again, and the rows
stay or the step commits. -/
structure Advances (D : PaaTaskDeclaration → Prop) (config : RuntimeConfig) (i : ℕ) (sh : Shared)
    (c : Client) (sh' : Shared) (c' : Client) : Prop where
  directory : sh'.directory = sh.directory
  lock : ∀ j, j ≠ i → sh.lock = some j → sh'.lock = some j
  disk : sh.disk.Extends sh'.disk
  spares : Spares sh.disk sh'.disk c.call? c'.call?
  ok : c'.Ok D i sh'
  commits : sh'.table = sh.table ∨
    ∃ written, sh'.table = sh.table ++ written ∧ Commits config sh c c' written

section Advances

variable {D : PaaTaskDeclaration → Prop} {config : RuntimeConfig} {i : ℕ} {io : Io} {sh : Shared}
  {c : Client} {α Λ ρ : Type}

/-- A step that changes nothing shared, to a client that stores nothing. -/
theorem Advances.quiet {c' : Client} (hcall : Fresh c'.call?) (hknows : c'.Knows D i sh) :
    Advances D config i sh c sh c' :=
  ⟨rfl, fun _ _ h => h, Disk.Extends.refl _, spares_fresh _ _ hcall, ⟨hcall.inv _, hknows⟩, .inl rfl⟩

/-- A part of a call that leaves the evidence alone, and commits nothing where it raises. -/
theorem Advances.run {w : Stage Λ ρ → Client} {x : Py α} {k : α → Stage Λ ρ}
    (hdisk : Keeps Session.disk x) (hclean : RaisesClean Session.committed x)
    (hraised : ∀ e, (w (.raised e)).call? = none ∧ ∀ sh, (w (.raised e)).Knows D i sh)
    (hok : ∀ a s, x (sh.session i io) = (.ok a, s) → Fresh (w (k a)).call? ∧
      (w (k a)).Knows D i (sh.after i s.world) ∧
      (s.world.committed = sh.table ∨ ∃ written, s.world.committed = sh.table ++ written ∧
        Commits config sh c (w (k a)) written)) :
    Advances D config i sh c (sh.run i io x k).1 (w (sh.run i io x k).2) := by
  rcases sh.run_cases i io x k with ⟨a, s, hx, hr⟩ | ⟨e, s, hx, hr⟩ <;> rw [hr] <;>
    have hd : s.world.disk = sh.disk := hdisk.eq_of_run hx
  · obtain ⟨hfresh, hknows, hcommits⟩ := hok a s hx
    refine ⟨rfl, fun j hji h => Shared.after_lock_of_ne hji h _, ?_, ?_, ⟨hfresh.inv _, hknows⟩,
      hcommits⟩
    · rw [Shared.after_disk, hd]; exact Disk.Extends.refl _
    · rw [Shared.after_disk, hd]; exact spares_fresh _ _ hfresh
  · obtain ⟨hcall, hknows⟩ := hraised e
    refine ⟨rfl, fun j hji h => Shared.after_lock_of_ne hji h _, ?_, ?_, ⟨?_, hknows _⟩,
      .inl (hclean _ _ _ hx)⟩
    · rw [Shared.after_disk, hd]; exact Disk.Extends.refl _
    · rw [Shared.after_disk, hd, hcall]; exact spares_fresh _ _ fresh_none
    · rw [hcall]; nofun

/-- A part of a call that leaves the world alone. -/
theorem Advances.read {w : Stage Λ ρ → Client} {x : Py α} {k : α → Stage Λ ρ}
    (hx : Keeps Session.world x)
    (hraised : ∀ e, (w (.raised e)).call? = none ∧ ∀ sh, (w (.raised e)).Knows D i sh)
    (hok : ∀ a s, x (sh.session i io) = (.ok a, s) → Fresh (w (k a)).call? ∧
      (w (k a)).Knows D i sh) :
    Advances D config i sh c (sh.run i io x k).1 (w (sh.run i io x k).2) := by
  refine .run (keeps_disk_of_world hx) (.of_keeps (keeps_committed_of_world hx)) hraised ?_
  intro a s h
  have hw := hx.eq_of_run h
  obtain ⟨hfresh, hknows⟩ := hok a s h
  refine ⟨hfresh, ?_, .inl ?_⟩
  · rw [hw, Shared.after_session]
    exact hknows
  · rw [hw]
    rfl

/-- A file-system step of storing evidence. -/
theorem Advances.store {w : Stage Λ ρ → Client} {root : String} {outcome : StepOutcome}
    {call : StoreCall} {k : StoreCall → Λ} (hc : c.call? = some call)
    (hok : c.Ok D i sh) (hcrashed : (w .crashed).call? = none ∧ ∀ sh, (w .crashed).Knows D i sh)
    (hgoes : ∀ call' : StoreCall, (w (.running (k call'))).call? = some call')
    (hknows : ∀ call' : StoreCall, ∀ disk, sh.disk.Extends disk → call'.data = call.data →
      (w (.running (k call'))).Knows D i { sh with disk := disk }) :
    Advances D config i sh c (sh.store i root outcome call k : Shared × Stage Λ ρ).1
      (w (sh.store i root outcome call k).2) := by
  have he := call.step_spec root outcome sh.disk
  have hinv : (call.step root outcome sh.disk).2.Inv True (call.step root outcome sh.disk).1 :=
    (hok.call call hc).step fun _ => trivial
  unfold Shared.store
  dsimp only
  split
  · refine ⟨rfl, fun j hji h => Shared.release_lock_of_ne hji h, he.extends, ?_, ⟨?_, hcrashed.2 _⟩,
      .inl rfl⟩
    · rw [hc, hcrashed.1]
      exact spares_effect he (.inl rfl)
    · rw [hcrashed.1]
      nofun
  · refine ⟨rfl, fun j _ h => h, he.extends, ?_, ⟨?_, hknows _ _ he.extends he.data⟩, .inl rfl⟩
    · rw [hc, hgoes]
      exact spares_effect he (.inr rfl)
    · rw [hgoes]
      rintro _ ⟨⟩
      exact hinv

end Advances

/-! ## The steps of each call -/

section Calls

variable {D : PaaTaskDeclaration → Prop} {config : RuntimeConfig} {i : ℕ} {sh : Shared}

/-- Every declaration of the directory satisfies `D`. -/
def Directory.All (D : PaaTaskDeclaration → Prop) (directory : Directory) : Prop :=
  ∀ ds, directory = .ok ds → ∀ d ∈ ds, D d

omit [Hashlib] in
theorem Directory.All.loaded {directory : Directory} (h : directory.All D) {task : String}
    {scope : Option String} {d : PaaTaskDeclaration}
    (hd : getPaaDeclaration config directory task = .ok d) (hp : d.Permits scope) :
    Loaded D task scope d := by
  obtain ⟨htask, ds, hds, hmem⟩ := getPaaDeclaration_ok hd
  exact ⟨h ds hds d hmem, htask, hp⟩

theorem propose_advances {args : ProposeArgs} {l : ProposeAt} (hdir : sh.directory.All D)
    (hok : (Client.propose args (.running l)).Ok D i sh) (io : Io) (outcome : StepOutcome) :
    Advances D config i sh (.propose args (.running l))
      (proposeStep config args i io outcome sh l).1
      (.propose args (proposeStep config args i io outcome sh l).2) := by
  have hraised : ∀ e : PyError, (Client.propose args (.raised e)).call? = none ∧
      ∀ sh, (Client.propose args (.raised e)).Knows D i sh := fun _ => ⟨rfl, fun _ => trivial⟩
  cases l with
  | called =>
    refine .read (keeps_world_proposeLoad config args) hraised fun r s h => ⟨fresh_none, ?_⟩
    obtain ⟨hd, hp⟩ := proposeLoad_ok h
    exact hdir.loaded hd hp
  | loaded d toPosition =>
    exact .read (keeps_world_proposeCheck d args.scope toPosition) hraised fun _ _ _ =>
      ⟨fresh_none, hok.knows⟩
  | checked d toPosition =>
    exact .read (keeps_world_proposeRead args.evidencePath) hraised fun data _ _ =>
      ⟨fresh_start data, hok.knows⟩
  | storing d toPosition call =>
    have hinv := hok.call call rfl
    have hstep : Advances D config i sh (.propose args (.running (.storing d toPosition call)))
        (sh.store i config.evidenceRoot outcome call (.storing d toPosition) :
          Shared × Stage ProposeAt Proposal).1
        (.propose args (sh.store i config.evidenceRoot outcome call (.storing d toPosition)).2) :=
      .store rfl hok ⟨rfl, fun _ => trivial⟩ (fun _ => rfl) fun _ _ _ _ => hok.knows
    simp only [proposeStep]
    split
    · next ref sha left hpc =>
      obtain ⟨hpub, href⟩ := hinv.finished _ _ hpc
      obtain ⟨rfl, rfl⟩ := Prod.mk.inj href
      exact .read (keeps_world_proposeActor config args.actor) hraised fun r _ _ =>
        ⟨fresh_none, hok.knows, rfl, hpub, rfl, rfl⟩
    · exact .quiet fresh_none trivial
    · exact hstep
  | ready data p =>
    refine .run (keeps_disk_proposeLocked p) (proposeLocked_raisesClean p) hraised fun m s h => ?_
    obtain ⟨hnone, hlock, hm, e, hpro, hw⟩ := proposeLocked_ok h
    refine ⟨fresh_none, ?_, .inr ⟨[e], ?_, ?_⟩⟩
    · show p.Ready D args s.world.disk data
      rw [hw]
      exact hok.knows
    · rw [hw]
      rfl
    · exact .propose (Shared.lock_eq_none hnone hlock) hpro hm

theorem approve_advances {args : MotionArgs} {l : MotionAt} (io : Io) :
    Advances D config i sh (.approve args (.running l)) (approveStep config args i io sh l).1
      (.approve args (approveStep config args i io sh l).2) := by
  have hraised : ∀ e : PyError, (Client.approve args (.raised e)).call? = none ∧
      ∀ sh, (Client.approve args (.raised e)).Knows D i sh := fun _ => ⟨rfl, fun _ => trivial⟩
  cases l with
  | called =>
    exact .read (keeps_world_reasonedActor _ _ _ _) hraised fun _ _ _ => ⟨fresh_none, trivial⟩
  | ready actor =>
    refine .run (keeps_disk_approveLocked config args actor)
      (approveLocked_raisesClean config args actor) hraised fun m s h => ⟨fresh_none, trivial, ?_⟩
    obtain ⟨hnone, hlock, -, hcase⟩ := approveLocked_ok h
    rcases hcase with ⟨-, -, -, -, hw⟩ | ⟨p, a, c, happ, hw⟩
    · exact .inl (congrArg World.committed hw)
    · exact .inr ⟨[a, c], congrArg World.committed hw,
        .approve (Shared.lock_eq_none hnone hlock) happ⟩

theorem reject_advances {args : MotionArgs} {l : MotionAt} (io : Io) :
    Advances D config i sh (.reject args (.running l)) (rejectStep config args i io sh l).1
      (.reject args (rejectStep config args i io sh l).2) := by
  have hraised : ∀ e : PyError, (Client.reject args (.raised e)).call? = none ∧
      ∀ sh, (Client.reject args (.raised e)).Knows D i sh := fun _ => ⟨rfl, fun _ => trivial⟩
  cases l with
  | called =>
    exact .read (keeps_world_reasonedActor _ _ _ _) hraised fun _ _ _ => ⟨fresh_none, trivial⟩
  | ready actor =>
    refine .run (keeps_disk_rejectLocked args actor) (rejectLocked_raisesClean args actor) hraised
      fun m s h => ⟨fresh_none, trivial, ?_⟩
    obtain ⟨hnone, hlock, -, hcase⟩ := rejectLocked_ok h
    rcases hcase with ⟨-, -, -, hw⟩ | ⟨p, r, hrej, hw⟩
    · exact .inl (congrArg World.committed hw)
    · exact .inr ⟨[r], congrArg World.committed hw,
        .reject (Shared.lock_eq_none hnone hlock) hrej⟩

theorem demote_advances {args : DemoteArgs} {l : DemoteAt} (hdir : sh.directory.All D)
    (hok : (Client.demote args (.running l)).Ok D i sh) (io : Io) (outcome : StepOutcome) :
    Advances D config i sh (.demote args (.running l))
      (demoteStep config args i io outcome sh l).1
      (.demote args (demoteStep config args i io outcome sh l).2) := by
  have hraised : ∀ e : PyError, (Client.demote args (.raised e)).call? = none ∧
      ∀ sh, (Client.demote args (.raised e)).Knows D i sh := fun _ => ⟨rfl, fun _ => trivial⟩
  cases l with
  | called =>
    refine .read (keeps_world_demoteLoad config args) hraised fun r s h => ⟨fresh_none, ?_⟩
    obtain ⟨hd, hp, -⟩ := demoteLoad_ok h
    exact hdir.loaded hd hp
  | loaded d actor =>
    refine .run (keeps_disk_demoteOpen config args d actor)
      (.of_keeps (keeps_committed_demoteOpen config args d actor)) hraised
      fun r s h => ⟨fresh_start r.2, ?_⟩
    obtain ⟨hnone, hlock, hw, hfrom, hdata, -⟩ := demoteOpen_ok h
    have hfree := Shared.lock_eq_none hnone hlock
    refine ⟨⟨hok.knows, ?_, hfrom, hdata⟩, .inl (congrArg World.committed hw)⟩
    unfold Shared.after
    rw [hw, hfree]
    rfl
  | storing d actor fromPosition call =>
    have hinv := hok.call call rfl
    obtain ⟨hloaded, hlock, hfrom, hdata⟩ := hok.knows
    have hstep : Advances D config i sh
        (.demote args (.running (.storing d actor fromPosition call)))
        (sh.store i config.evidenceRoot outcome call (.storing d actor fromPosition) :
          Shared × Stage DemoteAt Demotion).1
        (.demote args (sh.store i config.evidenceRoot outcome call
          (.storing d actor fromPosition)).2) :=
      .store rfl hok ⟨rfl, fun _ => trivial⟩ (fun _ => rfl) fun call' _ _ hd =>
        ⟨hloaded, hlock, hfrom, by rw [hd]; exact hdata⟩
    simp only [demoteStep]
    split
    · next ref sha left hpc =>
      obtain ⟨hpub, -⟩ := hinv.finished _ _ hpc
      refine .run (keeps_disk_demoteClose _ _ _ _ _ _) demoteClose_raisesClean hraised
        fun m s h => ⟨fresh_none, ?_, .inr ?_⟩
      · have hd : s.world.disk = sh.disk := (keeps_disk_demoteClose _ _ _ _ _ _).eq_of_run h
        refine ⟨hloaded, ?_, hdata⟩
        rw [Shared.after_disk, hd]
        exact hpub
      · obtain ⟨p, a, c, hdem, hw⟩ := demoteClose_ok (Shared.session_working hlock) h
        exact ⟨[p, a, c], congrArg World.committed hw, .demote hpc hdem⟩
    · next e left hpc =>
      refine .run (keeps_disk_rollbackOnError (Keeps.throw e))
        (.of_keeps (keeps_committed_rollbackOnError (Keeps.throw e))) hraised fun _ s h => ?_
      exact absurd (rollbackOnError_ok.1 h) throw_ok
    · exact hstep

omit [Hashlib] in
/-- An import that returns has appended its archive; with none open, or nothing to append. -/
theorem importEvents_commits {events : List (Except PyError EventMapping)} {io : Io} {u : Unit}
    {s : Session} (h : importEvents events (sh.session i io) = (.ok u, s)) :
    ∃ written, s.world.committed = sh.table ++ written ∧ FitsAll sh.table written ∧
      (written = [] ∨ sh.lock = none) := by
  obtain ⟨hnone, written, -, hlock, hfits, hw⟩ := importEvents_ok h
  refine ⟨written, congrArg World.committed hw, hfits, ?_⟩
  by_cases hempty : written = []
  · exact .inl hempty
  · exact .inr (Shared.lock_eq_none hnone (hlock hempty))

/-- **The steps of a client's call.** -/
theorem Client.advance_spec (config : RuntimeConfig) {c : Client} (hdir : sh.directory.All D) (hok : c.Ok D i sh) (io : Io)
    (outcome : StepOutcome) :
    Advances D config i sh c (c.advance config i io outcome sh).1
      (c.advance config i io outcome sh).2 := by
  have hsame : Advances D config i sh c sh c := by
    refine ⟨rfl, fun _ _ h => h, Disk.Extends.refl _, ?_, hok, .inl rfl⟩
    exact fun other hother hap => ⟨hother, hap⟩
  cases c with
  | idle => exact hsame
  | propose args stage =>
    cases stage with
    | running l => exact propose_advances hdir hok io outcome
    | _ => exact hsame
  | approve args stage =>
    cases stage with
    | running l => exact approve_advances io
    | _ => exact hsame
  | reject args stage =>
    cases stage with
    | running l => exact reject_advances io
    | _ => exact hsame
  | demote args stage =>
    cases stage with
    | running l => exact demote_advances hdir hok io outcome
    | _ => exact hsame
  | importEvents events stage =>
    cases stage with
    | running l =>
      refine .run (w := Client.importEvents events) (keeps_disk_importEvents events)
        (importEvents_raisesClean events) (fun _ => ⟨rfl, fun _ => trivial⟩)
        fun _ s h => ⟨fresh_none, trivial, ?_⟩
      obtain ⟨written, hw, hfits, rfl | hlock⟩ := importEvents_commits h
      · exact .inl (hw.trans (List.append_nil _))
      · exact .inr ⟨written, hw, .importEvents hlock hfits⟩
    | _ => exact hsame

end Calls

end PaaRuntime
