import PaaRuntime.Alone
import PaaRuntime.Ledger
import PaaRuntime.Lib.Serial

/-!
# Linearizability

Whatever the interleaving, the failures and the crashes, the calls that have returned could have run
one after the other (`System.linearizable`): each by itself, from beginning to end, on the world that
the ones before it left, with the very answer that it gave, and to the same committed table. Their
order is that in which they returned, so that a call that returned before another began comes before it.

The state of the serial run mirrors the one shared (`Mirrors`): the same table and directory, and of
the evidence at least what the table names. A call answers in the part that returns (`Gives`), and all
that it has gathered until then still holds when it does (`Client.Gathered`).
-/

namespace PaaRuntime

open Prog

/-! ## What the parts of a call gather -/

section

variable {config : RuntimeConfig} {s s' : Session}

theorem proposeLoad_target {args : ProposeArgs} {r : PaaTaskDeclaration × AutonomyPosition}
    (h : proposeLoad config args s = (.ok r, s')) :
    AutonomyPosition.ofText? args.toPosition = some r.2 := by
  obtain ⟨d, s₁, -, h₁⟩ := bind_ok.1 h
  obtain ⟨_, s₂, -, h₂⟩ := bind_ok.1 h₁
  obtain ⟨toPosition, s₃, h₃, h₄⟩ := bind_ok.1 h₂
  obtain ⟨htarget, -⟩ := liftM_ok.1 h₃
  obtain ⟨rfl, -⟩ := pure_ok.1 h₄
  exact requireSome_ok.1 htarget

theorem proposeRead_nonempty {path : String} {data : Bytes}
    (h : proposeRead path s = (.ok data, s')) : data ≠ [] := by
  obtain ⟨data', s₁, -, h₁⟩ := bind_ok.1 h
  obtain ⟨hne, h₂⟩ := require_bind_ok h₁
  obtain ⟨rfl, -⟩ := pure_ok.1 h₂
  exact hne

theorem proposeActor_names {actor : Option String} {r : String × String}
    (h : proposeActor config actor s = (.ok r, s')) :
    s.io.Names actor config.actorEnvVar r.1 := by
  obtain ⟨name, s₁, h₁, h₂⟩ := bind_ok.1 h
  obtain ⟨motionId, s₂, -, h₃⟩ := bind_ok.1 h₂
  obtain ⟨rfl, -⟩ := pure_ok.1 h₃
  exact resolveActor_names h₁

theorem reasonedActor_names {purpose reason name : String} {actor : Option String}
    (h : reasonedActor config purpose reason actor s = (.ok name, s')) :
    reason ≠ "" ∧ s.io.Names actor config.actorEnvVar name := by
  obtain ⟨hreason, h₁⟩ := require_bind_ok h
  exact ⟨hreason, resolveActor_names h₁⟩

theorem demoteLoad_gathered {args : DemoteArgs} {r : PaaTaskDeclaration × String}
    (h : demoteLoad config args s = (.ok r, s')) :
    args.Gathered config s.world.directory r.1 r.2 := by
  obtain ⟨hd, hpermits, -⟩ := demoteLoad_ok h
  obtain ⟨hreason, h₁⟩ := require_bind_ok h
  obtain ⟨d, s₁, -, h₂⟩ := bind_ok.1 h₁
  obtain ⟨_, s₂, -, h₃⟩ := bind_ok.1 h₂
  obtain ⟨actor, s₃, hactor, h₄⟩ := bind_ok.1 h₃
  obtain ⟨rfl, -⟩ := pure_ok.1 h₄
  exact ⟨hreason, hd, hpermits, s₂.io, resolveActor_names hactor⟩

/-- The motion that `propose` returns is the projection of what it has committed. -/
theorem proposeLocked_projects {p : Draft} {m : Motion} (h : proposeLocked p s = (.ok m, s')) :
    projectMotion (eventsForMotion p.motionId s'.world.committed) = .ok m := by
  obtain ⟨events, s₁, h₁, h₂⟩ := bind_ok.1 h
  obtain ⟨-, -, s₀, s₂, hw₀, hbody, hw₁⟩ := beginImmediate_ok h₁
  obtain ⟨hm, rfl⟩ := liftM_ok.1 h₂
  obtain ⟨e, -, rfl, hw₂⟩ := proposeBlock_ok (t := s.world.committed) (by rw [hw₀]; rfl) hbody
  rw [hw₁, hw₂]
  exact hm

/-- The motion that `demote` returns is the projection of what it has committed. -/
theorem demoteClose_projection {args : DemoteArgs} {d : PaaTaskDeclaration} {actor ref sha : String}
    {fromPosition : AutonomyPosition} {t : Table} {m : Motion} (hs : s.world.working = some t)
    (h : demoteClose args d actor fromPosition ref sha s = (.ok m, s')) :
    projectMotion (eventsForMotion m.motionId s'.world.committed) = .ok m := by
  obtain ⟨events, s₁, h₁, h₂⟩ := bind_ok.1 h
  obtain ⟨hm, rfl⟩ := liftM_ok.1 h₂
  obtain ⟨s₂, hbody, hw₁⟩ := closing_ok h₁
  obtain ⟨motionId, p, a, c, -, rfl, hw₂⟩ := demoteRecord_ok hs hbody
  have hid := projectMotion_motionId hm
  rw [hw₁, hw₂, World.setWorking_view, hid]
  exact hm

end

/-- What the load of a `propose` has checked. -/
structure ProposeArgs.Checked (config : RuntimeConfig) (directory : Directory) (args : ProposeArgs)
    (d : PaaTaskDeclaration) (target : AutonomyPosition) : Prop where
  loaded : getPaaDeclaration config directory args.task = .ok d
  permits : d.Permits args.scope
  target : AutonomyPosition.ofText? args.toPosition = some target

/-- A reason is given, and the operator is named. -/
def MotionArgs.Gathered (config : RuntimeConfig) (args : MotionArgs) (actor : String) : Prop :=
  args.reason ≠ "" ∧ ∃ io : Io, io.Names args.actor config.actorEnvVar actor

section

variable [Hashlib] {config : RuntimeConfig} {i : ℕ} {io : Io} {outcome : StepOutcome} {sh : Shared}
  {c : Client}

/-- What the client's call has gathered at its stage, under the directory in force. -/
def Client.Gathered (config : RuntimeConfig) (directory : Directory) : Client → Prop
  | .propose args (.running (.loaded d target)) => args.Checked config directory d target
  | .propose args (.running (.checked d target)) => args.Checked config directory d target
  | .propose args (.running (.storing d target call)) =>
    args.Checked config directory d target ∧ call.data ≠ []
  | .propose args (.running (.ready data p)) => p.Gathered config directory args data
  | .approve args (.running (.ready actor)) => args.Gathered config actor
  | .reject args (.running (.ready actor)) => args.Gathered config actor
  | .demote args (.running (.loaded d actor)) => args.Gathered config directory d actor
  | .demote args (.running (.storing d actor _ _)) => args.Gathered config directory d actor
  | _ => True

/-- A part of a call has gathered what its client is said to have. -/
theorem gathered_run {α Λ ρ : Type} {w : Stage Λ ρ → Client} {x : Py α} {k : α → Stage Λ ρ}
    {directory : Directory} (hraised : ∀ e, (w (.raised e)).Gathered config directory)
    (hok : ∀ a s, x (sh.session i io) = (.ok a, s) → (w (k a)).Gathered config directory) :
    (w (sh.run i io x k).2).Gathered config directory := by
  rcases sh.run_cases i io x k with ⟨a, s, hx, hr⟩ | ⟨e, s, -, hr⟩ <;> rw [hr]
  · exact hok a s hx
  · exact hraised e

theorem gathered_store {Λ ρ : Type} {w : Stage Λ ρ → Client} {root : String} {call : StoreCall}
    {k : StoreCall → Λ} {directory : Directory} (hcrashed : (w .crashed).Gathered config directory)
    (hgoes : ∀ call' : StoreCall, call'.data = call.data →
      (w (.running (k call'))).Gathered config directory) :
    (w (sh.store i root outcome call k : Shared × Stage Λ ρ).2).Gathered config directory := by
  have hdata := (call.step_spec root outcome sh.disk).data
  unfold Shared.store
  dsimp only
  split
  · exact hcrashed
  · exact hgoes _ hdata

theorem gathered_proposeStep {D : PaaTaskDeclaration → Prop} {args : ProposeArgs} {l : ProposeAt}
    (hok : (Client.propose args (.running l)).Ok D i sh)
    (h : (Client.propose args (.running l)).Gathered config sh.directory) :
    (Client.propose args (proposeStep config args i io outcome sh l).2).Gathered config
      sh.directory := by
  cases l with
  | called =>
    refine gathered_run (fun _ => trivial) fun r s hx => ?_
    obtain ⟨hd, hpermits⟩ := proposeLoad_ok hx
    exact ⟨hd, hpermits, proposeLoad_target hx⟩
  | loaded d target => exact gathered_run (fun _ => trivial) fun _ _ _ => h
  | checked d target =>
    exact gathered_run (fun _ => trivial) fun data s hx => ⟨h, proposeRead_nonempty hx⟩
  | storing d target call =>
    obtain ⟨hchecked, hne⟩ := h
    simp only [proposeStep]
    split
    · next ref sha left hpc =>
      obtain ⟨-, href⟩ := (hok.call call rfl).finished _ _ hpc
      obtain ⟨rfl, rfl⟩ := Prod.mk.inj href
      refine gathered_run (fun _ => trivial) fun r s hx => ?_
      exact ⟨hchecked.loaded, hchecked.permits, hchecked.target, rfl, rfl, hne, rfl, rfl, _,
        proposeActor_names hx⟩
    · trivial
    · refine gathered_store trivial fun call' hdata => ⟨hchecked, ?_⟩
      rw [hdata]
      exact hne
  | ready data p => exact gathered_run (fun _ => trivial) fun _ _ _ => trivial

theorem gathered_demoteStep {args : DemoteArgs} {l : DemoteAt}
    (h : (Client.demote args (.running l)).Gathered config sh.directory) :
    (Client.demote args (demoteStep config args i io outcome sh l).2).Gathered config
      sh.directory := by
  cases l with
  | called => exact gathered_run (fun _ => trivial) fun r s hx => demoteLoad_gathered hx
  | loaded d actor => exact gathered_run (fun _ => trivial) fun _ _ _ => h
  | storing d actor fromPosition call =>
    simp only [demoteStep]
    split
    · exact gathered_run (fun _ => trivial) fun _ _ _ => trivial
    · exact gathered_run (fun _ => trivial) fun _ _ _ => trivial
    · exact gathered_store trivial fun _ _ => h

/-- A step of a client gathers more. -/
theorem gathered_advance {D : PaaTaskDeclaration → Prop} (hok : c.Ok D i sh)
    (h : c.Gathered config sh.directory) :
    (c.advance config i io outcome sh).2.Gathered config sh.directory := by
  rcases c with _ | ⟨args, stage⟩ | ⟨args, stage⟩ | ⟨args, stage⟩ | ⟨args, stage⟩ | ⟨events, stage⟩
  case idle => trivial
  case propose =>
    cases stage with
    | running l => exact gathered_proposeStep hok h
    | _ => trivial
  case approve =>
    rcases stage with l | _ | _ | _
    case running =>
      cases l with
      | called => exact gathered_run (fun _ => trivial) fun actor s hx =>
          (reasonedActor_names hx).imp_right fun hnames => ⟨_, hnames⟩
      | ready actor => exact gathered_run (fun _ => trivial) fun _ _ _ => trivial
    all_goals trivial
  case reject =>
    rcases stage with l | _ | _ | _
    case running =>
      cases l with
      | called => exact gathered_run (fun _ => trivial) fun actor s hx =>
          (reasonedActor_names hx).imp_right fun hnames => ⟨_, hnames⟩
      | ready actor => exact gathered_run (fun _ => trivial) fun _ _ _ => trivial
    all_goals trivial
  case demote =>
    cases stage with
    | running l => exact gathered_demoteStep h
    | _ => trivial
  case importEvents => cases stage <;> trivial

omit [Hashlib] in
/-- What a call has gathered does not depend on the directory while none is in progress. -/
theorem Client.Gathered.of_not_inProgress [Hashlib] {directory : Directory}
    (h : ¬ c.InProgress) : c.Gathered config directory := by
  rcases c with _ | ⟨args, stage⟩ | ⟨args, stage⟩ | ⟨args, stage⟩ | ⟨args, stage⟩ | ⟨events, stage⟩
  case idle => trivial
  all_goals
    rcases stage with l | _ | _ | _
    · exact absurd trivial h
    all_goals trivial

/-! ## Answers -/

/-- What the client's call of the service has answered. -/
def Client.answer? : Client → Option (Call × Motion)
  | .propose args (.returned r) => some (.propose args, r.motion)
  | .approve args (.returned m) => some (.approve args, m)
  | .reject args (.returned m) => some (.reject args, m)
  | .demote args (.returned r) => some (.demote args, r.motion)
  | _ => none

/-- The part of client `i`'s call that answers, and what it leaves. -/
inductive Gives (config : RuntimeConfig) (i : ℕ) (io : Io) (sh : Shared) :
    Client → Shared → Call × Motion → Prop
  | propose {args data p m s} (h : proposeLocked p (sh.session i io) = (.ok m, s)) :
      Gives config i io sh (.propose args (.running (.ready data p))) (sh.after i s.world)
        (.propose args, m)
  | approve {args actor m s} (h : approveLocked config args actor (sh.session i io) = (.ok m, s)) :
      Gives config i io sh (.approve args (.running (.ready actor))) (sh.after i s.world)
        (.approve args, m)
  | reject {args actor m s} (h : rejectLocked args actor (sh.session i io) = (.ok m, s)) :
      Gives config i io sh (.reject args (.running (.ready actor))) (sh.after i s.world)
        (.reject args, m)
  | demote {args d actor fromPosition call ref sha left m s}
      (hcall : call.pc = .finished (.ok (ref, sha)) left)
      (h : demoteClose args d actor fromPosition ref sha (sh.session i io) = (.ok m, s)) :
      Gives config i io sh (.demote args (.running (.storing d actor fromPosition call)))
        (sh.after i s.world) (.demote args, m)

omit [Hashlib] in
/-- A part of a call that gives no answer. -/
theorem answer_run {α Λ ρ : Type} {w : Stage Λ ρ → Client} {x : Py α} {k : α → Stage Λ ρ}
    (hraised : ∀ e, (w (.raised e)).answer? = none) (hok : ∀ a, (w (k a)).answer? = none) :
    (w (sh.run i io x k).2).answer? = none := by
  rcases sh.run_cases i io x k with ⟨a, s, -, hr⟩ | ⟨e, s, -, hr⟩ <;> rw [hr]
  · exact hok a
  · exact hraised e

/-- A part of a call that answers where it returns. -/
theorem answer_run_last {α Λ ρ : Type} {w : Stage Λ ρ → Client} {x : Py α} {k : α → Stage Λ ρ}
    {answer : α → Call × Motion} (hraised : ∀ e, (w (.raised e)).answer? = none)
    (hok : ∀ a, (w (k a)).answer? = some (answer a))
    (hgives : ∀ a s, x (sh.session i io) = (.ok a, s) →
      Gives config i io sh c (sh.after i s.world) (answer a)) :
    (w (sh.run i io x k).2).answer? = none ∨ ∃ e, (w (sh.run i io x k).2).answer? = some e ∧
      Gives config i io sh c (sh.run i io x k).1 e := by
  rcases sh.run_cases i io x k with ⟨a, s, hx, hr⟩ | ⟨e, s, -, hr⟩ <;> rw [hr]
  · exact .inr ⟨answer a, hok a, hgives a s hx⟩
  · exact .inl (hraised e)

theorem answer_store {Λ ρ : Type} {w : Stage Λ ρ → Client} {root : String} {call : StoreCall}
    {k : StoreCall → Λ} (hcrashed : (w .crashed).answer? = none)
    (hgoes : ∀ call' : StoreCall, (w (.running (k call'))).answer? = none) :
    (w (sh.store i root outcome call k : Shared × Stage Λ ρ).2).answer? = none := by
  unfold Shared.store
  dsimp only
  split
  · exact hcrashed
  · exact hgoes _

theorem answer_proposeStep {args : ProposeArgs} {l : ProposeAt} :
    (Client.propose args (proposeStep config args i io outcome sh l).2).answer? = none ∨
      ∃ e, (Client.propose args (proposeStep config args i io outcome sh l).2).answer? = some e ∧
        Gives config i io sh (.propose args (.running l))
          (proposeStep config args i io outcome sh l).1 e := by
  cases l with
  | called => exact .inl (answer_run (fun _ => rfl) fun _ => rfl)
  | loaded d target => exact .inl (answer_run (fun _ => rfl) fun _ => rfl)
  | checked d target => exact .inl (answer_run (fun _ => rfl) fun _ => rfl)
  | storing d target call =>
    left
    simp only [proposeStep]
    split
    · exact answer_run (fun _ => rfl) fun _ => rfl
    · rfl
    · exact answer_store rfl fun _ => rfl
  | ready data p =>
    exact answer_run_last (w := .propose args) (fun _ => rfl) (fun _ => rfl) fun _ _ => .propose

theorem answer_approveStep {args : MotionArgs} {l : MotionAt} :
    (Client.approve args (approveStep config args i io sh l).2).answer? = none ∨
      ∃ e, (Client.approve args (approveStep config args i io sh l).2).answer? = some e ∧
        Gives config i io sh (.approve args (.running l)) (approveStep config args i io sh l).1 e := by
  cases l with
  | called => exact .inl (answer_run (fun _ => rfl) fun _ => rfl)
  | ready actor =>
    exact answer_run_last (w := .approve args) (fun _ => rfl) (fun _ => rfl) fun _ _ => .approve

theorem answer_rejectStep {args : MotionArgs} {l : MotionAt} :
    (Client.reject args (rejectStep config args i io sh l).2).answer? = none ∨
      ∃ e, (Client.reject args (rejectStep config args i io sh l).2).answer? = some e ∧
        Gives config i io sh (.reject args (.running l)) (rejectStep config args i io sh l).1 e := by
  cases l with
  | called => exact .inl (answer_run (fun _ => rfl) fun _ => rfl)
  | ready actor =>
    exact answer_run_last (w := .reject args) (fun _ => rfl) (fun _ => rfl) fun _ _ => .reject

theorem answer_demoteStep {args : DemoteArgs} {l : DemoteAt} :
    (Client.demote args (demoteStep config args i io outcome sh l).2).answer? = none ∨
      ∃ e, (Client.demote args (demoteStep config args i io outcome sh l).2).answer? = some e ∧
        Gives config i io sh (.demote args (.running l))
          (demoteStep config args i io outcome sh l).1 e := by
  cases l with
  | called => exact .inl (answer_run (fun _ => rfl) fun _ => rfl)
  | loaded d actor => exact .inl (answer_run (fun _ => rfl) fun _ => rfl)
  | storing d actor fromPosition call =>
    simp only [demoteStep]
    split
    · next ref sha left hpc =>
      exact answer_run_last (w := .demote args) (fun _ => rfl) (fun _ => rfl) fun _ _ => .demote hpc
    · exact .inl (answer_run (fun _ => rfl) fun _ => rfl)
    · exact .inl (answer_store rfl fun _ => rfl)

/-- A step of a client leaves its answer as it is, or gives it. -/
theorem answer_advance :
    (c.advance config i io outcome sh).2.answer? = c.answer? ∨ (c.answer? = none ∧
      ∃ e, (c.advance config i io outcome sh).2.answer? = some e ∧
        Gives config i io sh c (c.advance config i io outcome sh).1 e) := by
  rcases c with _ | ⟨args, stage⟩ | ⟨args, stage⟩ | ⟨args, stage⟩ | ⟨args, stage⟩ | ⟨events, stage⟩
  case idle => exact .inl rfl
  case propose =>
    cases stage with
    | running l => exact answer_proposeStep.imp_right fun h => ⟨rfl, h⟩
    | _ => exact .inl rfl
  case approve =>
    cases stage with
    | running l => exact answer_approveStep.imp_right fun h => ⟨rfl, h⟩
    | _ => exact .inl rfl
  case reject =>
    cases stage with
    | running l => exact answer_rejectStep.imp_right fun h => ⟨rfl, h⟩
    | _ => exact .inl rfl
  case demote =>
    cases stage with
    | running l => exact answer_demoteStep.imp_right fun h => ⟨rfl, h⟩
    | _ => exact .inl rfl
  case importEvents => cases stage <;> exact .inl rfl

/-- A client that commits rows answers. -/
theorem Commits.answer {c' : Client} {written : List AutonomyEvent}
    (h : Commits config sh c c' written) (hserves : c.Serves) :
    c.answer? = none ∧ c'.answer? ≠ none := by
  cases h with
  | importEvents => cases hserves
  | _ => exact ⟨rfl, by exact nofun⟩

/-! ## The serial run -/

/-- The call, from beginning to end on `w`, in some surroundings, gives the answer and leaves `w'`. -/
def Call.Answers (config : RuntimeConfig) (w : World) (e : Call × Motion) (w' : World) : Prop :=
  ∃ io s, e.1.run config ⟨w, io⟩ = (.ok (some e.2), s) ∧ s.world = w'

theorem Call.Answers.of_run {call : Call} {x : Py Motion} {m : Motion} {w w' : World}
    (hrun : call.run config = some <$> x) (h : ∃ io s, x ⟨w, io⟩ = (.ok m, s) ∧ s.world = w') :
    Call.Answers config w (call, m) w' := by
  obtain ⟨io, s, hx, hw⟩ := h
  refine ⟨io, s, ?_, hw⟩
  rw [hrun, map_run, hx]

/-- A world that differs in its directory only. -/
def World.Redeclared (w w' : World) : Prop := ∃ directory, w' = { w with directory := directory }

/-- The world that a serial run starts from. -/
def World.fresh (directory : Directory) : World where
  committed := []
  directory := directory
  disk := Disk.empty

/-- What is shared, as the serial run has it: the same rows and directory, no writer in the store,
no evidence but what is there, and all that the rows name. -/
structure Mirrors (sh : Shared) (w : World) : Prop where
  idle : w.Idle
  rows : w.committed = sh.table
  directory : w.directory = sh.directory
  free : ∀ tmp, w.disk.temps tmp = none
  disk : w.disk.Extends sh.disk
  stored : ∀ e ∈ sh.table, ∃ data, Stored w.disk data e.evidenceRef e.evidenceSha256

variable {sh' : Shared} {w : World}

theorem mirrors_fresh (directory : Directory) :
    Mirrors ⟨[], directory, Disk.empty, none⟩ (World.fresh directory) :=
  ⟨⟨rfl, rfl⟩, rfl, rfl, fun _ => rfl, Disk.Extends.refl _, fun _ he => absurd he List.not_mem_nil⟩

/-- What a step does that leaves the rows and the directory is not seen in the serial run. -/
theorem Mirrors.silent (h : Mirrors sh w) (htable : sh'.table = sh.table)
    (hdirectory : sh'.directory = sh.directory) (hdisk : sh.disk.Extends sh'.disk) :
    Mirrors sh' w :=
  ⟨h.idle, h.rows.trans htable.symm, h.directory.trans hdirectory.symm, h.free, h.disk.trans hdisk,
    by rw [htable]; exact h.stored⟩

theorem Mirrors.takes (h : Mirrors sh w) {data : Bytes}
    (hdata : sh.disk.published (computeSha256 data) = some data) : w.disk.Takes data :=
  ⟨h.free, fun _ hc => Option.some.inj ((h.disk _ _ hc).symm.trans hdata)⟩

/-- The serial run publishes evidence that is there. -/
theorem Mirrors.publish (h : Mirrors sh w) {data : Bytes}
    (hdata : sh.disk.published (computeSha256 data) = some data) :
    Mirrors sh { w with disk := w.disk.publish (computeSha256 data) data } := by
  have hgrows : w.disk.Extends (w.disk.publish (computeSha256 data) data) := by
    intro d content hd
    by_cases hsame : d = computeSha256 data
    · subst hsame
      rw [(h.takes hdata).agrees content hd, Disk.publish_published, Function.update_self]
    · rwa [Disk.publish_published, Function.update_of_ne hsame]
  refine ⟨⟨h.idle.closed, h.idle.unlocked⟩, h.rows, h.directory, h.free, ?_, fun e he => ?_⟩
  · intro d content hd
    by_cases hsame : d = computeSha256 data
    · subst hsame
      have hcontent : some data = some content := by
        rwa [Disk.publish_published, Function.update_self] at hd
      rw [← hcontent]
      exact hdata
    · rw [Disk.publish_published, Function.update_of_ne hsame] at hd
      exact h.disk d content hd
  · obtain ⟨content, hcontent⟩ := h.stored e he
    exact ⟨content, hcontent.mono hgrows⟩

/-- The serial run commits what the step of a client has committed. -/
theorem Mirrors.commit (h : Mirrors sh w) {s : Session} {written : List AutonomyEvent}
    (hs : s.world = (sh.session i io).world.commitAs (sh.table ++ written))
    (hstored : ∀ e ∈ written, ∃ data, Stored w.disk data e.evidenceRef e.evidenceSha256) :
    Mirrors (sh.after i s.world) (w.commitAs (w.committed ++ written)) := by
  rw [hs]
  refine ⟨⟨rfl, h.idle.unlocked⟩, congrArg (· ++ written) h.rows, h.directory, h.free, h.disk, ?_⟩
  intro e he
  rcases List.mem_append.1 he with he | he
  · exact h.stored e he
  · exact hstored e he

/-- **An answer can be given alone.** -/
theorem Gives.alone {D : PaaTaskDeclaration → Prop} {e : Call × Motion}
    (h : Gives config i io sh c sh' e) (hok : c.Ok D i sh) (hcurrent : c.Current config sh)
    (hgathered : c.Gathered config sh.directory) (hrules : Follows sh.table) (hw : Mirrors sh w) :
    ∃ w', Call.Answers config w e w' ∧ Mirrors sh' w' := by
  cases h with
  | @propose args data p m s h =>
    have hready : p.Ready D args sh.disk data := hok.knows
    have hp : p.Gathered config sh.directory args data := hgathered
    obtain ⟨-, -, -, e, hpro, hs⟩ := proposeLocked_ok h
    have hm := proposeLocked_projects h
    have hpro : Proposes p sh.table e := hpro
    rw [hs] at hm
    have hm : projectMotion (eventsForMotion p.motionId (sh.table ++ [e])) = .ok m := hm
    have hpub := hready.stored.published
    have hpro' : Proposes p w.committed e := hw.rows ▸ hpro
    rw [← hw.rows] at hm
    rw [← hw.directory] at hp
    refine ⟨_, .of_run rfl (propose_alone hp hw.idle (hw.takes hpub) hpro' hm),
      (hw.publish hpub).commit hs ?_⟩
    obtain ⟨id, createdAt, rfl⟩ := hpro.row
    intro e he
    rw [List.mem_singleton.1 he]
    exact ⟨data, Function.update_self .., hp.evidenceRef, hp.evidenceSha256⟩
  | @approve args actor m s h =>
    obtain ⟨hreason, hactor⟩ : args.Gathered config actor := hgathered
    obtain ⟨-, -, hm, hcase⟩ := approveLocked_ok h
    rcases hcase with ⟨p, a, c, hexec, hs⟩ | ⟨p, a, c, happ, hs⟩
    · have hexec : Executed sh.table args.motionId p a c := hexec
      rw [hs] at hm ⊢
      rw [Shared.after_session]
      have hm : projectMotion (eventsForMotion args.motionId sh.table) = .ok m := hm
      rw [← hw.rows] at hexec hm
      exact ⟨w, .of_run rfl (approve_again hreason hactor hw.idle hexec hm), hw⟩
    · have happ : Approves config sh.directory sh.disk args actor sh.table p a c := happ
      rw [hs] at hm
      have hm : projectMotion (eventsForMotion args.motionId (sh.table ++ [a, c])) = .ok m := hm
      have hrows := happ.pending.rows hrules
      obtain ⟨data, hstored⟩ := hw.stored p happ.pending.mem
      have happ' : Approves config w.directory w.disk args actor w.committed p a c := by
        rw [hw.rows, hw.directory]
        exact { happ with checks := { happ.checks with verified := ⟨data, hstored.verify _⟩ } }
      rw [← hw.rows] at hm hrows
      refine ⟨_, .of_run rfl (approve_alone hreason hactor hw.idle hrows happ' hm), hw.commit hs ?_⟩
      obtain ⟨ida, ata, rfl⟩ := happ.approvedRow
      obtain ⟨idc, atc, rfl⟩ := happ.changedRow
      intro e he
      refine ⟨data, ?_⟩
      rcases List.mem_cons.1 he with rfl | he
      · exact hstored
      · rw [List.mem_singleton.1 he]
        exact hstored
  | @reject args actor m s h =>
    obtain ⟨hreason, hactor⟩ : args.Gathered config actor := hgathered
    obtain ⟨-, -, hm, hcase⟩ := rejectLocked_ok h
    rcases hcase with ⟨p, r, hrej, hs⟩ | ⟨p, r, hrej, hs⟩
    · have hrej : Rejected sh.table args.motionId p r := hrej
      rw [hs] at hm ⊢
      rw [Shared.after_session]
      have hm : projectMotion (eventsForMotion args.motionId sh.table) = .ok m := hm
      rw [← hw.rows] at hrej hm
      exact ⟨w, .of_run rfl (reject_again hreason hactor hw.idle hrej hm), hw⟩
    · have hrej : Rejects args actor sh.table p r := hrej
      rw [hs] at hm
      have hm : projectMotion (eventsForMotion args.motionId (sh.table ++ [r])) = .ok m := hm
      have hrows := hrej.pending.rows hrules
      obtain ⟨data, hstored⟩ := hw.stored p hrej.pending.mem
      have hrej' : Rejects args actor w.committed p r := hw.rows ▸ hrej
      rw [← hw.rows] at hm hrows
      refine ⟨_, .of_run rfl (reject_alone hreason hactor hw.idle hrows hrej' hm), hw.commit hs ?_⟩
      obtain ⟨id, createdAt, rfl⟩ := hrej.row
      intro e he
      rw [List.mem_singleton.1 he]
      exact ⟨data, hstored⟩
  | @demote args d actor fromPosition call ref sha left m s hcall h =>
    obtain ⟨-, hlock, hsource, hgenerated⟩ := hok.knows
    obtain ⟨hpub, href⟩ := (hok.call call rfl).finished _ _ hcall
    obtain ⟨rfl, rfl⟩ := Prod.mk.inj href
    have hfrom : fromPosition = positionIn sh.table d args.scope := hcurrent
    have hd : args.Gathered config sh.directory d actor := hgathered
    have hopen : (sh.session i io).world.working = some sh.table := Shared.session_working hlock
    obtain ⟨p, a, c, hdem, hs⟩ := demoteClose_ok hopen h
    have hm := demoteClose_projection hopen h
    rw [hs] at hm
    have hm : projectMotion (eventsForMotion m.motionId (sh.table ++ [p, a, c])) = .ok m := hm
    rw [← hw.directory] at hd
    rw [← hw.rows] at hfrom hm
    have hdem' := hdem
    rw [← hw.rows] at hdem'
    refine ⟨_, .of_run rfl (demote_alone hd hw.idle (hw.takes hpub) hfrom hsource hgenerated rfl rfl
      hdem' hm), (hw.publish hpub).commit hs ?_⟩
    obtain ⟨idp, atp, rfl⟩ := hdem.proposedRow
    obtain ⟨ida, ata, rfl⟩ := hdem.approvedRow
    obtain ⟨idc, atc, rfl⟩ := hdem.changedRow
    have hall : ∀ e ∈ [demotionRow args d actor m.motionId fromPosition
          (evidenceRefFor call.digest.hex) call.digest.hex .motionProposed idp atp,
        demotionRow args d actor m.motionId fromPosition (evidenceRefFor call.digest.hex)
          call.digest.hex .motionApproved ida ata,
        demotionRow args d actor m.motionId fromPosition (evidenceRefFor call.digest.hex)
          call.digest.hex .positionChanged idc atc],
        e.evidenceRef = evidenceRefFor call.digest.hex ∧ e.evidenceSha256 = call.digest.hex := by
      simp [demotionRow]
    intro e he
    obtain ⟨href, hsha⟩ := hall e he
    exact ⟨call.data, Function.update_self .., href, hsha⟩

end

/-! ## Runs -/

namespace System

variable [Hashlib] {config : RuntimeConfig} {W W' : System} {w : World}

/-- What may happen: no imports, and no replacement of the directory during a call. -/
def Orderly (W : System) (a : Action) : Prop := ServiceOnly W a ∧ QuietReplacement W a

/-- What holds beside the serial run. -/
structure Mirrored (config : RuntimeConfig) (W : System) (w : World) : Prop where
  inv : Inv (fun _ => True) W
  written : Written W
  current : ∀ i, (W.thread i).Current config W.shared
  gathered : ∀ i, (W.thread i).Gathered config W.shared.directory
  mirrors : Mirrors W.shared w

theorem gathered_next (hinv : Inv (fun _ => True) W)
    (h : ∀ i, (W.thread i).Gathered config W.shared.directory) {a : Action}
    (ha : QuietReplacement W a) (j : ℕ) :
    ((next config W a).thread j).Gathered config (next config W a).shared.directory := by
  have hact : ∀ (i : ℕ) (f : Shared → Client → Shared × Client),
      (f W.shared (W.thread i)).1.directory = W.shared.directory →
      (f W.shared (W.thread i)).2.Gathered config W.shared.directory →
      ((W.act i f).thread j).Gathered config (W.act i f).shared.directory := by
    intro i f hdirectory hf
    rw [Threads.act_shared, hdirectory]
    by_cases hji : j = i
    · subst hji
      rw [Threads.act_thread_self]
      exact hf
    · rw [W.act_thread_of_ne f hji]
      exact h j
  cases a with
  | replaceDirectory directory => exact .of_not_inProgress (ha j)
  | start i call =>
    refine hact i _ (start_advances config hinv i call).directory ?_
    have hi := h i
    generalize W.thread i = c at hi
    cases c with
    | idle => cases call <;> trivial
    | _ => exact hi
  | advance i io outcome =>
    exact hact i _ (Client.advance_spec config hinv.shared (hinv.own i) io outcome).directory
      (gathered_advance (hinv.own i) (h i))
  | crash i =>
    refine hact i _ (crash_advances config hinv i).directory ?_
    generalize W.thread i = c
    rcases c with _ | ⟨args, stage⟩ | ⟨args, stage⟩ | ⟨args, stage⟩ | ⟨args, stage⟩ |
      ⟨events, stage⟩
    case idle => trivial
    all_goals cases stage <;> trivial

/-- An action that leaves every answer as it is leaves the rows as they are. -/
theorem table_of_answers (hinv : Inv (fun _ => True) W) (hserves : ∀ i, (W.thread i).Serves)
    {a : Action}
    (hsame : ∀ i, ((next config W a).thread i).answer? = (W.thread i).answer?) :
    (next config W a).shared.table = W.shared.table := by
  rcases next_table hinv a with htable | ⟨i, io, outcome, written, -, -, hcommits⟩
  · exact htable
  · obtain ⟨hnone, hsome⟩ := hcommits.answer (hserves i)
    exact absurd ((hsame i).trans hnone) hsome

/-- An action leaves every answer as it is, or is the part of a call that answers. -/
theorem answer_next (a : Action) :
    (∀ i, ((next config W a).thread i).answer? = (W.thread i).answer?) ∨
      ∃ i io e, (W.thread i).answer? = none ∧ ((next config W a).thread i).answer? = some e ∧
        (∀ j, j ≠ i → ((next config W a).thread j).answer? = (W.thread j).answer?) ∧
        Gives config i io W.shared (W.thread i) (next config W a).shared e := by
  have hact : ∀ (i : ℕ) (f : Shared → Client → Shared × Client),
      (f W.shared (W.thread i)).2.answer? = (W.thread i).answer? →
      ∀ j, ((W.act i f).thread j).answer? = (W.thread j).answer? := by
    intro i f hf j
    by_cases hji : j = i
    · subst hji
      rw [Threads.act_thread_self]
      exact hf
    · rw [W.act_thread_of_ne f hji]
  cases a with
  | replaceDirectory directory => exact .inl fun _ => rfl
  | start i call =>
    refine .inl (hact i _ ?_)
    generalize W.thread i = c
    cases c with
    | idle => cases call <;> rfl
    | _ => rfl
  | advance i io outcome =>
    rcases @answer_advance _ config i io outcome W.shared (W.thread i) with
      hsame | ⟨hnone, e, hsome, hgives⟩
    · exact .inl (hact i _ hsame)
    · refine .inr ⟨i, io, e, hnone, ?_, fun j hji => ?_, hgives⟩
      · rw [next, Threads.act_thread_self]
        exact hsome
      · rw [next_thread_of_ne hji (.inr (.inl ⟨io, outcome, rfl⟩))]
  | crash i =>
    refine .inl (hact i _ ?_)
    generalize W.thread i = c
    rcases c with _ | ⟨args, stage⟩ | ⟨args, stage⟩ | ⟨args, stage⟩ | ⟨args, stage⟩ |
      ⟨events, stage⟩
    case idle => rfl
    all_goals cases stage <;> rfl

/-- The serial run sees the directory replaced, or nothing. -/
theorem mirrors_unanswered (h : Mirrored config W w) {a : Action}
    (hsame : ∀ i, ((next config W a).thread i).answer? = (W.thread i).answer?) :
    ∃ w', Mirrors (next config W a).shared w' ∧
      Matched World.Redeclared (Call.Answers config) Client.answer? W (next config W a) w w' := by
  have hsilent : (next config W a).shared.directory = W.shared.directory →
      Mirrors (next config W a).shared w := fun hdirectory =>
    h.mirrors.silent (table_of_answers h.inv h.written.serves hsame) hdirectory
      (next_extends h.inv a)
  cases a with
  | replaceDirectory directory =>
    have hm := h.mirrors
    refine ⟨{ w with directory := directory }, ?_, .between ⟨directory, rfl⟩ hsame⟩
    exact ⟨⟨hm.idle.closed, hm.idle.unlocked⟩, hm.rows, rfl, hm.free, hm.disk, hm.stored⟩
  | start i call =>
    exact ⟨w, hsilent (start_advances config h.inv i call).directory, .silent rfl hsame⟩
  | advance i io outcome =>
    have hdirectory := (Client.advance_spec config h.inv.shared (h.inv.own i) io outcome).directory
    exact ⟨w, hsilent hdirectory, .silent rfl hsame⟩
  | crash i => exact ⟨w, hsilent (crash_advances config h.inv i).directory, .silent rfl hsame⟩

/-- Every action is matched in the serial run. -/
theorem mirrored_next (h : Mirrored config W w) {a : Action} (ha : Orderly W a) :
    ∃ w', Mirrored config (next config W a) w' ∧
      Matched World.Redeclared (Call.Answers config) Client.answer? W (next config W a) w w' := by
  have hloads := loadsOnly_true W a
  have hmirrors : ∃ w', Mirrors (next config W a).shared w' ∧
      Matched World.Redeclared (Call.Answers config) Client.answer? W (next config W a) w w' := by
    rcases answer_next a with hsame | ⟨i, io, e, hnone, hsome, hothers, hgives⟩
    · exact mirrors_unanswered h hsame
    · obtain ⟨w', hanswers, hw'⟩ := hgives.alone (h.inv.own i) (h.current i) (h.gathered i)
        h.written.follows h.mirrors
      exact ⟨w', hw', .answer i e hanswers hnone hsome hothers⟩
  obtain ⟨w', hw', hmatched⟩ := hmirrors
  exact ⟨w', ⟨inv_next h.inv hloads, written_next h.inv h.written ha.1 hloads,
    current_next h.inv h.current ha.2, gathered_next h.inv h.gathered ha.2, hw'⟩, hmatched⟩

theorem mirrored_init (directory : Directory) :
    Mirrored config (init directory) (World.fresh directory) :=
  ⟨inv_init fun _ _ _ _ => trivial, written_init directory, fun _ => trivial, fun _ => trivial,
    mirrors_fresh directory⟩

omit [Hashlib] in
theorem answered_init (directory : Directory) :
    Answered Client.answer? (init directory) [] := by
  refine ⟨fun i e => ⟨fun h => absurd h List.not_mem_nil, fun h => ?_⟩, List.nodup_nil⟩
  cases h

/-- **The service is linearizable.** Along every run of its calls, whatever fails and whoever crashes,
those that have returned are a history of calls one after the other, each from beginning to end on what
the ones before it have left, that give the same answers and end with the same committed table. The
history of a later state goes on from that of an earlier one, so it keeps the order in which calls
returned and began. -/
theorem linearizable {directory : Directory}
    (h : Run (next config) Orderly (init directory) W) (h' : Run (next config) Orderly W W') :
    ∃ history more w w',
      Serial World.Redeclared (Call.Answers config) (World.fresh directory) history w ∧
      Serial World.Redeclared (Call.Answers config) w more w' ∧
      w.committed = W.shared.table ∧ w'.committed = W'.shared.table ∧
      Answered Client.answer? W history ∧ Answered Client.answer? W' (history ++ more) := by
  have hstep : ∀ V a b, Orderly V a → Mirrored config V b → ∃ b',
      Mirrored config (next config V a) b' ∧
        Matched World.Redeclared (Call.Answers config) Client.answer? V (next config V a) b b' :=
    fun _ _ _ ha hV => mirrored_next hV ha
  obtain ⟨history, w, hserial, hw, hanswered⟩ :=
    Run.serialized hstep (mirrored_init directory) (answered_init directory) h
  rw [List.nil_append] at hanswered
  obtain ⟨more, w', hserial', hw', hanswered'⟩ := Run.serialized hstep hw hanswered h'
  exact ⟨history, more, w, w', hserial, hserial', hw.mirrors.rows, hw'.mirrors.rows, hanswered,
    hanswered'⟩

end System

/-- Two proposals and the approval of one of them, of three clients. -/
theorem System.linearizable_race : ∃ history w,
    Serial World.Redeclared (@Call.Answers Scenario.hashing Scenario.config)
      (World.fresh (.ok [Scenario.declaration])) history w ∧
    w.committed = (Scenario.after Scenario.race).shared.table ∧
    ∀ i ∈ [0, 1, 2], ∃ e, (i, e) ∈ history := by
  have horderly : ∀ W a, System.Governed (fun _ _ => Scenario.declaration) W a →
      System.Orderly W a := fun _ _ ha => ⟨ha.1, ha.2.1⟩
  have hreturned : ∀ i ∈ [0, 1, 2],
      (((Scenario.after Scenario.race).thread i).answer?).isSome := by decide +kernel
  obtain ⟨history, -, w, -, hserial, -, hw, -, hanswered, -⟩ :=
    @System.linearizable Scenario.hashing Scenario.config _ _ _
      (Scenario.run_race.1.mono horderly) (Scenario.run_race.2.mono horderly)
  refine ⟨history, w, hserial, hw, fun i hi => ?_⟩
  obtain ⟨e, he⟩ := Option.isSome_iff_exists.1 (hreturned i hi)
  exact ⟨e, (hanswered.given i e).2 he⟩

end PaaRuntime
