import PaaRuntime.Walk

/-!
# The declarations of a demotion

`demote` loads its declaration before the lock and again inside its block, where it resolves the
position. Its rows carry the version and the edge of the first load and the position of the second.
They are the demotion of one declaration exactly when the two loads agree on the position in force,
or on version and edge.
-/

namespace PaaRuntime

open Prog

/-- The row records a demotion of the declaration over a table: it carries its task and version, the
position its triple stands at, and its demotion edge. -/
def DemotionOf (d : PaaTaskDeclaration) (t : Table) (e : AutonomyEvent) : Prop :=
  e.triple = d.triple e.scope ∧ e.fromPosition = positionIn t d e.scope ∧
    e.fromPosition = d.demotion.fromPosition ∧ e.toPosition = d.demotion.toPosition

instance (d : PaaTaskDeclaration) (t : Table) (e : AutonomyEvent) : Decidable (DemotionOf d t e) :=
  inferInstanceAs (Decidable (_ ∧ _))

/-- Two loads are of one version and one demotion edge. -/
def SameDemotion (d d' : PaaTaskDeclaration) : Prop :=
  d'.version = d.version ∧ d'.demotion.fromPosition = d.demotion.fromPosition ∧
    d'.demotion.toPosition = d.demotion.toPosition

instance (d d' : PaaTaskDeclaration) : Decidable (SameDemotion d d') :=
  inferInstanceAs (Decidable (_ ∧ _))

section

variable {args : DemoteArgs} {d d' : PaaTaskDeclaration} {actor ref sha m : String}
  {f : AutonomyPosition} {t : Table} {p a c : AutonomyEvent}

/-- The rows of a demotion are the demotion of a declaration if it has their version, position and
edge. -/
theorem Demotes.demotionOf_iff (h : Demotes args d actor f ref sha m t p a c)
    (htask : d'.task = d.task) :
    (∀ e ∈ [p, a, c], DemotionOf d' t e) ↔ d'.version = d.version ∧
      f = positionIn t d' args.scope ∧ f = d'.demotion.fromPosition ∧
      d.demotion.toPosition = d'.demotion.toPosition := by
  obtain ⟨idp, atp, rfl⟩ := h.proposedRow
  obtain ⟨ida, ata, rfl⟩ := h.approvedRow
  obtain ⟨idc, atc, rfl⟩ := h.changedRow
  simp [DemotionOf, demotionRow, AutonomyEvent.triple, PaaTaskDeclaration.triple, htask, eq_comm]

/-- The rows are the demotion of a declaration that was loaded exactly when the loads agree. -/
theorem Demotes.one_declaration_iff (h : Demotes args d actor f ref sha m t p a c)
    (htask : d'.task = d.task) (hfrom : f = d.demotion.fromPosition)
    (hposition : f = positionIn t d' args.scope) :
    (∃ d₁, (d₁ = d ∨ d₁ = d') ∧ ∀ e ∈ [p, a, c], DemotionOf d₁ t e) ↔
      positionIn t d args.scope = positionIn t d' args.scope ∨ SameDemotion d d' := by
  constructor
  · rintro ⟨d₁, rfl | rfl, hrows⟩
    · obtain ⟨-, hf, -, -⟩ := (h.demotionOf_iff rfl).1 hrows
      exact .inl (hf.symm.trans hposition)
    · obtain ⟨hversion, -, hf, hto⟩ := (h.demotionOf_iff htask).1 hrows
      exact .inr ⟨hversion, hf.symm.trans hfrom, hto.symm⟩
  · rintro (hsame | ⟨hversion, hf, hto⟩)
    · exact ⟨d, .inl rfl, (h.demotionOf_iff rfl).2
        ⟨rfl, hposition.trans hsame.symm, hfrom, rfl⟩⟩
    · exact ⟨d', .inr rfl, (h.demotionOf_iff htask).2
        ⟨hversion, hposition, hfrom.trans hf.symm, hto.symm⟩⟩

end

/-! ## Where a call stands -/

instance {Λ ρ : Type} (stage : Stage Λ ρ) : Decidable stage.InProgress :=
  match stage with
  | .running _ => .isTrue trivial
  | .returned _ => .isFalse not_false
  | .raised _ => .isFalse not_false
  | .crashed => .isFalse not_false

instance (c : Client) : Decidable c.InProgress :=
  match c with
  | .idle => .isFalse not_false
  | .propose _ stage => inferInstanceAs (Decidable stage.InProgress)
  | .approve _ stage => inferInstanceAs (Decidable stage.InProgress)
  | .reject _ stage => inferInstanceAs (Decidable stage.InProgress)
  | .demote _ stage => inferInstanceAs (Decidable stage.InProgress)
  | .importEvents _ stage => inferInstanceAs (Decidable stage.InProgress)

/-- The client has called `demote`, which has returned. -/
def Client.HasDemoted : Client → Prop
  | .demote _ (.returned _) => True
  | _ => False

instance (c : Client) : Decidable c.HasDemoted :=
  match c with
  | .demote _ (.returned _) => .isTrue trivial
  | .demote _ (.running _) => .isFalse not_false
  | .demote _ (.raised _) => .isFalse not_false
  | .demote _ .crashed => .isFalse not_false
  | .idle => .isFalse not_false
  | .propose _ _ => .isFalse not_false
  | .approve _ _ => .isFalse not_false
  | .reject _ _ => .isFalse not_false
  | .importEvents _ _ => .isFalse not_false

namespace System

variable [Hashlib] {config : RuntimeConfig} {W W₁ W₂ : System} {D : PaaTaskDeclaration → Prop}
  {i : ℕ} {args : DemoteArgs} {d : PaaTaskDeclaration} {actor : String} {f : AutonomyPosition}

/-! ## While the block of a demotion is open -/

/-- A client has left its call. -/
def Left (W : System) (i : ℕ) : Prop := W.thread i ≠ .idle ∧ ¬ (W.thread i).InProgress

/-- Client `i` stores the evidence of a demotion, over the table it opened its block on. -/
def Storing (i : ℕ) (args : DemoteArgs) (d : PaaTaskDeclaration) (actor : String)
    (f : AutonomyPosition) (t : Table) (W : System) : Prop :=
  W.shared.table = t ∧ ∃ call, W.thread i = .demote args (.running (.storing d actor f call))

/-- A step of storing goes on storing with the table as it is, or ends the call. -/
theorem storing_advance {sh : Shared} (io : Io) (outcome : StepOutcome) (call : StoreCall) :
    ((demoteStep config args i io outcome sh (.storing d actor f call)).1.table = sh.table ∧
      ∃ call', (demoteStep config args i io outcome sh (.storing d actor f call)).2 =
        .running (.storing d actor f call')) ∨
    ¬ (demoteStep config args i io outcome sh (.storing d actor f call)).2.InProgress := by
  simp only [demoteStep]
  split
  · next ref sha left hpc =>
    right
    rcases sh.run_cases i io (demoteClose args d actor f ref sha) fun m =>
      (.returned ⟨d, actor, call.data, m⟩ : Stage DemoteAt Demotion) with
      ⟨m, s, -, hr⟩ | ⟨e, s, -, hr⟩ <;> rw [hr] <;> exact not_false
  · next e left hpc =>
    right
    rcases sh.run_cases i io (rollbackOnError (throw e : Py Unit)) fun _ =>
      (.raised e : Stage DemoteAt Demotion) with
      ⟨_, s, -, hr⟩ | ⟨e', s, -, hr⟩ <;> rw [hr] <;> exact not_false
  · unfold Shared.store
    dsimp only
    split
    · exact .inr not_false
    · exact .inl ⟨rfl, _, rfl⟩

theorem left_next (h : W.Left i) (a : Action) : (next config W a).Left i := by
  have hact : ∀ (j : ℕ) (g : Shared → Client → Shared × Client),
      (∀ c : Client, c ≠ .idle ∧ ¬ c.InProgress → (g W.shared c).2 ≠ .idle ∧
        ¬ (g W.shared c).2.InProgress) → Left (W.act j g) i := by
    intro j g hg
    unfold Left
    by_cases hij : i = j
    · subst hij
      rw [Threads.act_thread_self]
      exact hg _ h
    · rw [W.act_thread_of_ne g hij]
      exact h
  cases a with
  | replaceDirectory directory => exact h
  | start j call =>
    refine hact j _ fun c hc => ?_
    cases c with
    | idle => exact absurd rfl hc.1
    | _ => exact hc
  | advance j io outcome =>
    refine hact j _ fun c hc => ?_
    rcases c with _ | ⟨args, stage⟩ | ⟨args, stage⟩ | ⟨args, stage⟩ | ⟨args, stage⟩ | ⟨args, stage⟩
    case idle => exact absurd rfl hc.1
    all_goals
      cases stage with
      | running l => exact absurd trivial hc.2
      | _ => exact hc
  | crash j =>
    refine hact j _ fun c hc => ?_
    rcases c with _ | ⟨args, stage⟩ | ⟨args, stage⟩ | ⟨args, stage⟩ | ⟨args, stage⟩ | ⟨args, stage⟩
    case idle => exact absurd rfl hc.1
    all_goals cases stage <;> exact ⟨nofun, not_false⟩

/-- A step of a demotion's client is one of its call. -/
theorem next_advance_demote (config : RuntimeConfig) {l : DemoteAt} (io : Io) (outcome : StepOutcome)
    (hi : W.thread i = .demote args (.running l)) :
    (next config W (.advance i io outcome)).thread i =
        .demote args (demoteStep config args i io outcome W.shared l).2 ∧
      (next config W (.advance i io outcome)).shared =
        (demoteStep config args i io outcome W.shared l).1 := by
  simp only [next, Threads.act_thread_self, Threads.act_shared, hi]
  exact ⟨rfl, rfl⟩

/-- While one client stores, no other one commits. -/
theorem storing_next {t : Table} (hinv : Inv D W) (h : Storing i args d actor f t W) (a : Action) :
    Storing i args d actor f t (next config W a) ∨ (next config W a).Left i := by
  obtain ⟨htable, call, hi⟩ := h
  cases a with
  | replaceDirectory directory => exact .inl ⟨htable, call, hi⟩
  | start j c =>
    left
    refine ⟨?_, call, ?_⟩
    · rw [← htable]
      rcases ht : W.thread j <;> simp [next, Client.start, ht]
    · by_cases hij : i = j
      · subst hij
        simp only [next, Threads.act_thread_self, hi]
        rfl
      · rw [next_thread_of_ne hij (.inl ⟨c, rfl⟩), hi]
  | advance j io outcome =>
    by_cases hij : i = j
    · subst hij
      obtain ⟨hthread, hshared⟩ := next_advance_demote config io outcome hi
      rcases storing_advance io outcome call with ⟨hsame, call', hcall'⟩ | hleft
      · left
        rw [Storing, hthread, hshared]
        exact ⟨hsame.trans htable, call', by rw [hcall']⟩
      · right
        rw [Left, hthread]
        exact ⟨by simp, hleft⟩
    · left
      refine ⟨?_, call, by rw [next_thread_of_ne hij (.inr (.inl ⟨io, outcome, rfl⟩)), hi]⟩
      have hlock : W.shared.lock = some i := by
        have hknows := (hinv.own i).knows
        rw [hi] at hknows
        exact hknows.2.1
      rw [table_of_lock hinv hlock (Ne.symm hij), htable]
  | crash j =>
    by_cases hij : i = j
    · subst hij
      right
      rw [Left]
      simp only [next, Threads.act_thread_self, hi]
      exact ⟨by simp [Client.crash], not_false⟩
    · left
      refine ⟨?_, call, by rw [next_thread_of_ne hij (.inr (.inr rfl)), hi]⟩
      rw [← htable]
      rcases ht : W.thread j <;> simp [next, Client.crash, ht]

/-- Opening the block resolves the position under the declaration that is there now. -/
theorem demoteStep_opened {sh : Shared} {io : Io} {outcome : StepOutcome}
    (h : (demoteStep config args i io outcome sh (.loaded d actor)).2.InProgress) :
    (demoteStep config args i io outcome sh (.loaded d actor)).1.table = sh.table ∧
      ∃ call, (demoteStep config args i io outcome sh (.loaded d actor)).2 =
        .running (.storing d actor d.demotion.fromPosition call) ∧
      ∃ d', getPaaDeclaration config sh.directory args.task = .ok d' ∧
        d.demotion.fromPosition = positionIn sh.table d' args.scope := by
  simp only [demoteStep] at h ⊢
  rcases sh.run_cases i io (demoteOpen config args d actor) fun r =>
    (.running (.storing d actor r.1 ⟨r.2, .mkdir⟩) : Stage DemoteAt Demotion) with
    ⟨r, s, hx, hr⟩ | ⟨e, s, -, hr⟩ <;> rw [hr] at h ⊢
  · obtain ⟨-, -, hw, hfrom, -, d', hd', -, hposition⟩ := demoteOpen_ok hx
    rw [← hfrom]
    exact ⟨congrArg World.committed hw, _, rfl, d', hd', hposition⟩
  · exact h.elim

/-- Returning has committed the three rows. -/
theorem demoteStep_returned {sh : Shared} {io : Io} {outcome : StepOutcome} {call : StoreCall}
    (hlock : sh.lock = some i)
    (h : (Client.demote args
      (demoteStep config args i io outcome sh (.storing d actor f call)).2).HasDemoted) :
    ∃ ref sha m p a c, Demotes args d actor f ref sha m sh.table p a c ∧
      (demoteStep config args i io outcome sh (.storing d actor f call)).1.table =
        sh.table ++ [p, a, c] := by
  simp only [demoteStep] at h ⊢
  split at h
  · next ref sha left hpc =>
    rcases sh.run_cases i io (demoteClose args d actor f ref sha) fun m =>
      (.returned ⟨d, actor, call.data, m⟩ : Stage DemoteAt Demotion) with
      ⟨m, s, hx, hr⟩ | ⟨e, s, -, hr⟩ <;> rw [hr] at h <;> cases h
    obtain ⟨p, a, c, hdem, hw⟩ := demoteClose_ok (Shared.session_working hlock) hx
    refine ⟨ref, sha, _, p, a, c, hdem, ?_⟩
    simp only [hr]
    exact congrArg World.committed hw
  · next e left hpc =>
    rcases sh.run_cases i io (rollbackOnError (throw e : Py Unit)) fun _ =>
      (.raised e : Stage DemoteAt Demotion) with
      ⟨_, s, -, hr⟩ | ⟨e', s, -, hr⟩ <;> rw [hr] at h <;> cases h
  · unfold Shared.store at h
    dsimp only at h
    split at h <;> cases h

/-- A client that stores keeps storing over the same table until it leaves its call. -/
theorem storing_run {t : Table} (hinv : Inv (fun _ => True) W₁)
    (hstart : Storing i args d actor f t W₁) (h : Reach config W₁ W₂) :
    Inv (fun _ => True) W₂ ∧ (Storing i args d actor f t W₂ ∨ W₂.Left i) := by
  refine h.invariant (P := fun W => Inv (fun _ => True) W ∧
    (Storing i args d actor f t W ∨ W.Left i)) ?_ ⟨hinv, .inl hstart⟩
  rintro V a - ⟨hV, hV' | hV'⟩
  · exact ⟨inv_next hV (loadsOnly_true V a), storing_next hV hV' a⟩
  · exact ⟨inv_next hV (loadsOnly_true V a), .inr (left_next hV' a)⟩

/-- A store with any contents, any declarations, any evidence, and no calls. -/
def opened (table : Table) (directory : Directory) (disk : Disk) : System :=
  ⟨⟨table, directory, disk, none⟩, fun _ => .idle⟩

theorem inv_opened (table : Table) (directory : Directory) (disk : Disk) :
    Inv (fun _ => True) (opened table directory disk) :=
  ⟨fun _ _ _ _ => trivial, fun _ => ⟨nofun, trivial⟩, fun _ _ _ => EvidenceWriters.apart_none_left _⟩

/-- **A demotion is of one declaration exactly when its loads agree.** Client `i` has loaded `d`
before the lock, opens its block in `W₁` and commits in `W₂`, with anything in between. -/
theorem demote_one_declaration_iff {table : Table} {directory : Directory} {disk : Disk}
    {io io' : Io} {outcome outcome' : StepOutcome}
    (h₁ : Reach config (opened table directory disk) W₁)
    (hloaded : W₁.thread i = .demote args (.running (.loaded d actor)))
    (hopens : ((next config W₁ (.advance i io outcome)).thread i).InProgress)
    (h₂ : Reach config (next config W₁ (.advance i io outcome)) W₂)
    (hrunning : (W₂.thread i).InProgress)
    (hreturns : ((next config W₂ (.advance i io' outcome')).thread i).HasDemoted) :
    ∃ d' p a c, getPaaDeclaration config W₁.shared.directory args.task = .ok d' ∧
      (next config W₂ (.advance i io' outcome')).shared.table = W₂.shared.table ++ [p, a, c] ∧
      ((∃ d₁, (d₁ = d ∨ d₁ = d') ∧ ∀ e ∈ [p, a, c], DemotionOf d₁ W₂.shared.table e) ↔
        positionIn W₂.shared.table d args.scope = positionIn W₂.shared.table d' args.scope ∨
          SameDemotion d d') := by
  have hinv₁ : Inv (fun _ => True) W₁ :=
    inv_run (fun W a _ => loadsOnly_true W a) (inv_opened table directory disk) h₁
  have htask : d.task = args.task := by
    have hknows := (hinv₁.own i).knows
    rw [hloaded] at hknows
    exact hknows.task
  -- the block opens: the position is resolved under the second load
  have hnext₁ := next_advance_demote config io outcome hloaded
  rw [hnext₁.1] at hopens
  obtain ⟨htable₁, call, hcall, d', hd', hposition⟩ := demoteStep_opened hopens
  -- until it closes, the table stays
  have hstart : Storing i args d actor d.demotion.fromPosition W₁.shared.table
      (next config W₁ (.advance i io outcome)) :=
    ⟨by rw [hnext₁.2, htable₁], call, by rw [hnext₁.1, hcall]⟩
  obtain ⟨hinv₂, ⟨htable₂, call', hstoring⟩ | hleft⟩ :=
    storing_run (inv_next hinv₁ (loadsOnly_true _ _)) hstart h₂
  · have hlock : W₂.shared.lock = some i := by
      have hknows := (hinv₂.own i).knows
      rw [hstoring] at hknows
      exact hknows.2.1
    have hnext₂ := next_advance_demote config io' outcome' hstoring
    rw [hnext₂.1] at hreturns
    obtain ⟨ref, sha, m, p, a, c, hdem, htable₃⟩ := demoteStep_returned hlock hreturns
    refine ⟨d', p, a, c, hd', by rw [hnext₂.2, htable₃], ?_⟩
    refine hdem.one_declaration_iff ((getPaaDeclaration_ok hd').1.trans htask.symm) rfl ?_
    rw [htable₂]
    exact hposition
  · exact absurd hrunning hleft.2

end System

/-! ## A declaration replaced between the two loads -/

namespace Scenario

/-- The next version of the declaration starts where its demotion does. -/
def revised : PaaTaskDeclaration := { declaration with version := 2, initialPosition := .hotl }

def incident : DemoteArgs := ⟨"t", none, "incident", none, []⟩

/-- A demotion loads its declaration, which is then replaced. -/
def loads : List Action :=
  [.start 0 (.demote incident), .advance 0 (io 0) (.completes "tmp"),
    .replaceDirectory (.ok [revised])]

/-- It opens its block, and stores its evidence. -/
def opens : Action := .advance 0 (io 1) (.completes "tmp")

def stores : List Action := (List.range 6).map fun k => .advance 0 (io (k + 2)) (.completes "tmp")

/-- It commits. -/
def closes : Action := .advance 0 (io 8) (.completes "tmp")

end Scenario

/-- The demotion returns, and its rows are the demotion of neither declaration: they record a step
down from `hotl` at version 1, which stands at `hitl`. -/
theorem System.demote_two_declarations :
    ((Scenario.after (Scenario.loads ++ Scenario.opens :: Scenario.stores ++
      [Scenario.closes])).thread 0).HasDemoted ∧
    (Scenario.after (Scenario.loads ++ Scenario.opens :: Scenario.stores ++
      [Scenario.closes])).shared.table.length = 3 ∧
    ∀ e ∈ (Scenario.after (Scenario.loads ++ Scenario.opens :: Scenario.stores ++
        [Scenario.closes])).shared.table,
      e.declarationVersion = 1 ∧ e.fromPosition = .hotl ∧
      positionIn [] Scenario.declaration none = .hitl ∧
      ∀ d ∈ [Scenario.declaration, Scenario.revised], ¬ DemotionOf d [] e :=
  ⟨by decide +kernel, by decide +kernel, by decide +kernel⟩

theorem System.demote_one_declaration_iff_sample : ∃ d' p a c,
    (Scenario.after (Scenario.loads ++ Scenario.opens :: Scenario.stores ++
      [Scenario.closes])).shared.table = [p, a, c] ∧
    ¬ ∃ d₁, (d₁ = Scenario.declaration ∨ d₁ = d') ∧ ∀ e ∈ [p, a, c], DemotionOf d₁ [] e := by
  have hfold : ∀ l l', Scenario.after (l ++ l') =
      l'.foldl (@System.next Scenario.hashing Scenario.config) (Scenario.after l) := fun l l' =>
    List.foldl_append
  have hempty : (Scenario.after (Scenario.loads ++ Scenario.opens :: Scenario.stores)).shared.table
      = [] := List.length_eq_zero_iff.1 (by decide +kernel)
  obtain ⟨d', p, a, c, hd', htable, hiff⟩ := @System.demote_one_declaration_iff Scenario.hashing
    Scenario.config (Scenario.after Scenario.loads)
    (Scenario.after (Scenario.loads ++ Scenario.opens :: Scenario.stores)) 0 Scenario.incident
    Scenario.declaration "operator" [] (.ok [Scenario.declaration]) Disk.empty (Scenario.io 1)
    (Scenario.io 8) (.completes "tmp") (.completes "tmp")
    (Run.foldl _ Scenario.loads fun _ _ _ => trivial) (by rfl) (by decide +kernel)
    (by rw [hfold, List.foldl_cons]; exact Run.foldl _ _ fun _ _ _ => trivial) (by decide +kernel)
    (by decide +kernel)
  rw [hempty] at htable hiff
  cases hd'
  refine ⟨Scenario.revised, p, a, c, by rw [hfold]; exact htable, fun h => ?_⟩
  have hagree := hiff.1 h
  revert hagree
  decide +kernel

end PaaRuntime
