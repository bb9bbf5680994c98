import PaaRuntime.Histories

/-!
# Where the evidence of an event comes from

Evidence is published by file-system steps of its own, which no rollback takes back, and events are
committed to the store. Every event that the service commits is bound to evidence that can be
verified, and that is what its motion was proposed with (`System.evidence_bound`): the bytes of the
file that `propose` was handed, as one of its steps has read them, or what `demote` generated.
-/

namespace PaaRuntime

open Prog

/-- The bytes that a `propose` has read, with what it was called with. -/
def Client.read? : Client → Option (ProposeArgs × Bytes)
  | .propose args (.running (.storing _ _ call)) => some (args, call.data)
  | .propose args (.running (.ready data _)) => some (args, data)
  | .propose args (.returned r) => some (args, r.data)
  | _ => none

namespace System

variable [Hashlib]

/-- On the way from one state to another, a step of client `j` has read the file that its `propose`
was handed. -/
def HasRead (config : RuntimeConfig) (W₀ W : System) (j : ℕ) (args : ProposeArgs) (data : Bytes) :
    Prop :=
  ∃ V io outcome d toPosition, Run (next config) ServiceOnly W₀ V ∧
    V.thread j = .propose args (.running (.checked d toPosition)) ∧
    io.files args.evidencePath = some data ∧
    Run (next config) ServiceOnly (next config V (.advance j io outcome)) W

/-- The bytes that a proposal was made with: a call of `propose` has read them from the file it was
handed, or they are the canonical evidence of a demotion with the proposal's operator and reason. -/
inductive ProposedWith (config : RuntimeConfig) (W₀ W : System) (p : AutonomyEvent) : Bytes → Prop
  | file {j args r} (hthread : W.thread j = .propose args (.returned r))
      (hmotion : r.draft.motionId = p.motionId) (hread : HasRead config W₀ W j args r.data) :
      ProposedWith config W₀ W p r.data
  | generated {j args r} (generatedAt : String) (hthread : W.thread j = .demote args (.returned r))
      (hmotion : r.motion.motionId = p.motionId)
      (htriple : p.triple = r.declaration.triple args.scope) (hactor : p.actor = r.actor)
      (hreason : p.reason = args.reason) :
      ProposedWith config W₀ W p (canonicalDemotionEvidence r.declaration args.scope r.actor
        args.reason args.sourceRows generatedAt)

variable {config : RuntimeConfig} {W₀ W : System} {D : PaaTaskDeclaration → Prop}

/-! ## What a client has read -/

omit [Hashlib] in
theorem readEvidenceFile_ok {path : String} {s s' : Session} {data : Bytes}
    (h : readEvidenceFile path s = (.ok data, s')) : s.io.files path = some data := by
  obtain ⟨_, s₁, h₁, h₂⟩ := bind_ok.1 h
  have hfiles : s₁.io.files = s.io.files := by
    unfold tick at h₁
    dsimp only at h₁
    split at h₁ <;> cases h₁
    rfl
  rw [gets_bind_run, hfiles] at h₂
  rcases hf : s.io.files path with _ | content <;> simp only [hf] at h₂
  · exact absurd h₂ throw_ok
  · obtain ⟨rfl, -⟩ := pure_ok.1 h₂
    rfl

omit [Hashlib] in
theorem proposeRead_ok {path : String} {s s' : Session} {data : Bytes}
    (h : proposeRead path s = (.ok data, s')) : s.io.files path = some data := by
  obtain ⟨data', s₁, h₁, h₂⟩ := bind_ok.1 h
  obtain ⟨-, h₃⟩ := require_bind_ok h₂
  obtain ⟨rfl, -⟩ := pure_ok.1 h₃
  exact readEvidenceFile_ok h₁

/-- A step of a client keeps the bytes it has read, or reads the file that it was handed. -/
theorem read_advance {i : ℕ} {io : Io} {outcome : StepOutcome} {sh : Shared} {c : Client}
    {args : ProposeArgs} {data : Bytes}
    (h : (c.advance config i io outcome sh).2.read? = some (args, data)) :
    c.read? = some (args, data) ∨ ∃ d toPosition,
      c = .propose args (.running (.checked d toPosition)) ∧
        io.files args.evidencePath = some data := by
  rcases c with _ | ⟨args', stage⟩ | ⟨args', stage⟩ | ⟨args', stage⟩ | ⟨args', stage⟩ |
    ⟨events, stage⟩
  case propose =>
    rcases stage with l | r | e | _
    case running =>
      simp only [Client.advance] at h
      cases l with
      | called =>
        simp only [proposeStep] at h
        rcases sh.run_cases i io (proposeLoad config args') fun r =>
          (.running (.loaded r.1 r.2) : Stage ProposeAt Proposal) with
          ⟨r, s, -, hr⟩ | ⟨e, s, -, hr⟩ <;> rw [hr] at h <;> cases h
      | loaded d toPosition =>
        simp only [proposeStep] at h
        rcases sh.run_cases i io (proposeCheck d args'.scope toPosition) fun _ =>
          (.running (.checked d toPosition) : Stage ProposeAt Proposal) with
          ⟨r, s, -, hr⟩ | ⟨e, s, -, hr⟩ <;> rw [hr] at h <;> cases h
      | checked d toPosition =>
        simp only [proposeStep] at h
        rcases sh.run_cases i io (proposeRead args'.evidencePath) fun data =>
          (.running (.storing d toPosition ⟨data, .mkdir⟩) : Stage ProposeAt Proposal) with
          ⟨content, s, hread, hr⟩ | ⟨e, s, -, hr⟩ <;> rw [hr] at h <;> cases h
        exact .inr ⟨d, toPosition, rfl, proposeRead_ok hread⟩
      | storing d toPosition call =>
        left
        simp only [proposeStep] at h
        split at h
        · next ref sha left hpc =>
          rcases sh.run_cases i io (proposeActor config args'.actor) fun r =>
            (.running (.ready call.data ⟨d, args'.scope, toPosition, ref, sha, r.1, args'.reason,
              r.2⟩) : Stage ProposeAt Proposal) with
            ⟨r, s, -, hr⟩ | ⟨e, s, -, hr⟩ <;> rw [hr] at h <;> cases h
          rfl
        · cases h
        · have hdata := (StoreCall.step_spec config.evidenceRoot outcome sh.disk call).data
          unfold Shared.store at h
          dsimp only at h
          split at h
          · cases h
          · rw [← h]
            exact congrArg (fun content => some (args', content)) hdata.symm
      | ready content p =>
        left
        simp only [proposeStep] at h
        rcases sh.run_cases i io (proposeLocked p) fun m =>
          (.returned ⟨content, p, m⟩ : Stage ProposeAt Proposal) with
          ⟨m, s, -, hr⟩ | ⟨e, s, -, hr⟩ <;> rw [hr] at h <;> cases h
        rfl
    all_goals exact .inl h
  all_goals first | exact .inl h | cases stage <;> cases h

theorem HasRead.next {j : ℕ} {args : ProposeArgs} {data : Bytes} (h : HasRead config W₀ W j args data)
    {a : Action} (ha : ServiceOnly W a) : HasRead config W₀ (next config W a) j args data := by
  obtain ⟨V, io, outcome, d, toPosition, hrun, hthread, hfile, hrest⟩ := h
  exact ⟨V, io, outcome, d, toPosition, hrun, hthread, hfile, hrest.act a ha⟩

/-- What clients have read, they have read on the way. -/
def Reads (config : RuntimeConfig) (W₀ W : System) : Prop :=
  ∀ j args data, (W.thread j).read? = some (args, data) → HasRead config W₀ W j args data

theorem reads_next (hrun : Run (next config) ServiceOnly W₀ W) (h : Reads config W₀ W) {a : Action}
    (ha : ServiceOnly W a) : Reads config W₀ (next config W a) := by
  intro j args data hread
  have hact : ∀ (i : ℕ) (f : Shared → Client → Shared × Client), next config W a = W.act i f →
      (i = j → (f W.shared (W.thread j)).2.read? = some (args, data) →
        HasRead config W₀ (next config W a) j args data) →
      HasRead config W₀ (next config W a) j args data := by
    intro i f hnext hf
    by_cases hji : j = i
    · subst hji
      rw [hnext, Threads.act_thread_self] at hread
      exact hf rfl hread
    · rw [hnext, W.act_thread_of_ne f hji] at hread
      exact (h j args data hread).next ha
  cases a with
  | replaceDirectory directory => exact (h j args data hread).next ha
  | start i call =>
    refine hact i _ rfl fun _ hr => (h j args data ?_).next ha
    generalize W.thread j = c at hr
    cases c with
    | idle => cases call <;> cases hr
    | _ => exact hr
  | advance i io outcome =>
    refine hact i _ rfl fun hij hr => ?_
    subst hij
    rcases read_advance hr with hr | ⟨d, toPosition, hthread, hfile⟩
    · exact (h i args data hr).next ha
    · exact ⟨W, io, outcome, d, toPosition, hrun, hthread, hfile, .refl _⟩
  | crash i =>
    refine hact i _ rfl fun _ hr => (h j args data ?_).next ha
    generalize W.thread j = c at hr
    rcases c with _ | ⟨args', stage⟩ | ⟨args', stage⟩ | ⟨args', stage⟩ | ⟨args', stage⟩ |
      ⟨events, stage⟩
    case propose => cases stage <;> first | exact hr | cases hr
    all_goals exact hr

/-! ## What an event is bound to -/

/-- The motion of a row was proposed in the table with the evidence that the row names, and that
evidence is stored. -/
structure Bound (config : RuntimeConfig) (W₀ W : System) (e p : AutonomyEvent) (data : Bytes) :
    Prop where
  mem : p ∈ W.shared.table
  kind : p.event = .motionProposed
  motion : p.motionId = e.motionId
  identity : p.identity = e.identity
  stored : Stored W.shared.disk data p.evidenceRef p.evidenceSha256
  source : ProposedWith config W₀ W p data

/-- A call that has returned stays so. -/
theorem returned_next {j : ℕ} {c : Client} (h : W.thread j = c)
    (hc : (∃ args r, c = .propose args (.returned r)) ∨ ∃ args r, c = .demote args (.returned r))
    (a : Action) : (next config W a).thread j = c := by
  have hact : ∀ (i : ℕ) (f : Shared → Client → Shared × Client),
      (∀ sh, (f sh c).2 = c) → (W.act i f).thread j = c := by
    intro i f hf
    by_cases hji : j = i
    · subst hji
      rw [Threads.act_thread_self, h]
      exact hf _
    · rw [W.act_thread_of_ne f hji]
      exact h
  cases a with
  | replaceDirectory directory => exact h
  | start i call => exact hact i _ fun sh => by rcases hc with ⟨_, _, rfl⟩ | ⟨_, _, rfl⟩ <;> rfl
  | advance i io outcome =>
    exact hact i _ fun sh => by rcases hc with ⟨_, _, rfl⟩ | ⟨_, _, rfl⟩ <;> rfl
  | crash i => exact hact i _ fun sh => by rcases hc with ⟨_, _, rfl⟩ | ⟨_, _, rfl⟩ <;> rfl

theorem ProposedWith.next {p : AutonomyEvent} {data : Bytes} (h : ProposedWith config W₀ W p data)
    {a : Action} (ha : ServiceOnly W a) : ProposedWith config W₀ (next config W a) p data := by
  cases h with
  | file hthread hmotion hread =>
    exact .file (returned_next hthread (.inl ⟨_, _, rfl⟩) a) hmotion (hread.next ha)
  | generated generatedAt hthread hmotion htriple hactor hreason =>
    exact .generated generatedAt (returned_next hthread (.inr ⟨_, _, rfl⟩) a) hmotion htriple hactor
      hreason

theorem Bound.next {e p : AutonomyEvent} {data : Bytes} (h : Bound config W₀ W e p data)
    (hinv : Inv D W) {a : Action} (ha : ServiceOnly W a) :
    Bound config W₀ (next config W a) e p data := by
  refine ⟨?_, h.kind, h.motion, h.identity, h.stored.mono (next_extends hinv a), h.source.next ha⟩
  rcases next_table hinv a with hsame | ⟨i, io, outcome, written, -, htable, -⟩
  · rw [hsame]
    exact h.mem
  · rw [htable]
    exact List.mem_append_left written h.mem

/-- The rows of a commit are bound: a proposal to the evidence of its call, the others to that of
the proposal they resolve. -/
theorem commits_bound (hinv : Inv D W) {a : Action} (ha : ServiceOnly W a)
    (hinv' : Inv D (next config W a)) (hreads : Reads config W₀ (next config W a))
    (hbound : ∀ e ∈ W.shared.table, ∃ p data, Bound config W₀ W e p data)
    (hserves : ∀ i, (W.thread i).Serves) {i : ℕ} {written : List AutonomyEvent}
    (htable : (next config W a).shared.table = W.shared.table ++ written)
    (h : Commits config W.shared (W.thread i) ((next config W a).thread i) written) :
    ∀ e ∈ written, ∃ p data, Bound config W₀ (next config W a) e p data := by
  have hbefore := hinv.own i
  have hafter := (hinv'.own i).knows
  have hread := hreads i
  have hserves := hserves i
  have hresolved : ∀ {m : String} {p e : AutonomyEvent}, Pending W.shared.table m p →
      e.motionId = m → e.identity = p.identity →
        ∃ p data, Bound config W₀ (next config W a) e p data := by
    intro m p e hp hm hid
    obtain ⟨q, data, hq⟩ := hbound p hp.mem
    refine ⟨q, data, ?_⟩
    have hq' := hq.next hinv ha
    exact ⟨hq'.mem, hq'.kind, hq'.motion.trans (hp.motion.trans hm.symm), hq'.identity.trans hid.symm,
      hq'.stored, hq'.source⟩
  generalize hc : W.thread i = c at h hbefore hserves
  generalize hc' : (next config W a).thread i = c' at h hafter hread
  cases h with
  | @propose args data p m e hlock hpro hm =>
    obtain ⟨id, createdAt, rfl⟩ := hpro.row
    have hready : p.Ready D args (next config W a).shared.disk data := hafter
    intro e he
    rw [List.mem_singleton.1 he]
    refine ⟨_, data, ?_, rfl, rfl, rfl, hready.stored, .file hc' rfl (hread args data rfl)⟩
    rw [htable]
    exact List.mem_append_right _ (List.mem_singleton_self _)
  | @approve args actor m p a' c'' hlock happ =>
    obtain ⟨ida, ata, rfl⟩ := happ.approvedRow
    obtain ⟨idc, atc, rfl⟩ := happ.changedRow
    intro e he
    rcases List.mem_cons.1 he with rfl | he
    · exact hresolved happ.pending rfl rfl
    · rw [List.mem_singleton.1 he]
      exact hresolved happ.pending rfl rfl
  | @reject args actor m p r hlock hrej =>
    obtain ⟨id, createdAt, rfl⟩ := hrej.row
    intro e he
    rw [List.mem_singleton.1 he]
    exact hresolved hrej.pending rfl rfl
  | @demote args d actor fromPosition call ref sha left m p a' c'' hcall hdem =>
    obtain ⟨-, href⟩ := (hbefore.call call rfl).finished _ _ hcall
    obtain ⟨rfl, rfl⟩ := Prod.mk.inj href
    obtain ⟨-, hpub, generatedAt, hdata⟩ := hafter
    obtain ⟨idp, atp, rfl⟩ := hdem.proposedRow
    obtain ⟨ida, ata, rfl⟩ := hdem.approvedRow
    obtain ⟨idc, atc, rfl⟩ := hdem.changedRow
    have hall : ∀ e ∈ [demotionRow args d actor m.motionId fromPosition
          (evidenceRefFor call.digest.hex) call.digest.hex .motionProposed idp atp,
        demotionRow args d actor m.motionId fromPosition (evidenceRefFor call.digest.hex)
          call.digest.hex .motionApproved ida ata,
        demotionRow args d actor m.motionId fromPosition (evidenceRefFor call.digest.hex)
          call.digest.hex .positionChanged idc atc],
        e.motionId = m.motionId ∧ e.identity = (demotionRow args d actor m.motionId fromPosition
          (evidenceRefFor call.digest.hex) call.digest.hex .motionProposed idp atp).identity := by
      simp [demotionRow, AutonomyEvent.identity]
    intro e he
    obtain ⟨hm, hid⟩ := hall e he
    refine ⟨_, call.data, ?_, rfl, hm.symm, hid.symm, ⟨hpub, rfl, rfl⟩, ?_⟩
    · rw [htable]
      exact List.mem_append_right _ List.mem_cons_self
    · have hgenerated : call.data = canonicalDemotionEvidence d args.scope actor args.reason
        args.sourceRows generatedAt := hdata
      rw [hgenerated]
      exact @ProposedWith.generated _ config W₀ _ _ i args ⟨d, actor, call.data, m⟩ generatedAt hc'
        rfl rfl rfl rfl
  | importEvents => cases hserves

/-! ## Runs -/

/-- What holds along the runs of the service. -/
structure Evidenced (config : RuntimeConfig) (W₀ W : System) : Prop where
  run : Run (next config) ServiceOnly W₀ W
  inv : Inv (fun _ => True) W
  serves : ∀ i, (W.thread i).Serves
  reads : Reads config W₀ W
  bound : ∀ e ∈ W.shared.table, ∃ p data, Bound config W₀ W e p data

theorem evidenced_next (h : Evidenced config W₀ W) {a : Action} (ha : ServiceOnly W a) :
    Evidenced config W₀ (next config W a) := by
  have hinv' : Inv (fun _ => True) (next config W a) := inv_next h.inv (loadsOnly_true W a)
  have hreads := reads_next h.run h.reads ha
  refine ⟨h.run.act a ha, hinv', serves_next ha h.serves, hreads, ?_⟩
  rcases next_table h.inv a with hsame | ⟨i, io, outcome, written, -, htable, hcommits⟩
  · intro e he
    rw [hsame] at he
    obtain ⟨p, data, hp⟩ := h.bound e he
    exact ⟨p, data, hp.next h.inv ha⟩
  · intro e he
    rw [htable, List.mem_append] at he
    rcases he with he | he
    · obtain ⟨p, data, hp⟩ := h.bound e he
      exact ⟨p, data, hp.next h.inv ha⟩
    · exact commits_bound h.inv ha hinv' hreads h.bound h.serves htable hcommits e he

theorem evidenced_init (config : RuntimeConfig) (directory : Directory) :
    Evidenced config (init directory) (init directory) :=
  ⟨.refl _, inv_init fun _ _ _ _ => trivial, fun _ => trivial, fun _ _ _ h => (by cases h),
    fun _ he => absurd he List.not_mem_nil⟩

/-- **Every event stays bound to verifiable evidence.** In every state that any interleaving of calls
of the service reaches, whatever fails and whoever crashes, the evidence of every committed event
verifies, its reference is of the event's digest, and its bytes are those that its motion was
proposed with. -/
theorem evidence_bound {directory : Directory}
    (h : Run (next config) ServiceOnly (init directory) W) :
    ∀ e ∈ W.shared.table, ∃ p data,
      (p ∈ W.shared.table ∧ p.event = .motionProposed ∧ p.motionId = e.motionId) ∧
      ProposedWith config (init directory) W p data ∧
      verifyEvidence config.evidenceRoot W.shared.disk e.evidenceRef e.evidenceSha256 = .ok data ∧
      ∃ digest, resolveEvidencePath e.evidenceRef = .ok digest ∧ digest.hex = e.evidenceSha256 := by
  have hevidenced : Evidenced config (init directory) W :=
    h.invariant (P := Evidenced config (init directory)) (fun _ _ ha hW => evidenced_next hW ha)
      (evidenced_init config directory)
  intro e he
  obtain ⟨p, data, hp⟩ := hevidenced.bound e he
  have href : p.evidenceRef = e.evidenceRef := congrArg Identity.evidenceRef hp.identity
  have hsha : p.evidenceSha256 = e.evidenceSha256 := congrArg Identity.evidenceSha256 hp.identity
  have hverify := hp.stored.verify config.evidenceRoot
  have hresolve := resolveEvidencePath_evidenceRefFor (computeSha256 data)
  rw [← hp.stored.ref, href] at hresolve
  rw [href, hsha] at hverify
  exact ⟨p, data, ⟨hp.mem, hp.kind, hp.motion⟩, hp.source, hverify, computeSha256 data, hresolve,
    hp.stored.sha.symm.trans hsha⟩

end System

/-- The events of a promotion and a demotion are bound. -/
theorem System.evidence_bound_cycle :
    (Scenario.after Scenario.cycle).shared.table.length = 6 ∧
      ∀ e ∈ (Scenario.after Scenario.cycle).shared.table, ∃ data,
        @verifyEvidence Scenario.hashing "root" (Scenario.after Scenario.cycle).shared.disk
          e.evidenceRef e.evidenceSha256 = .ok data := by
  refine ⟨by decide +kernel, fun e he => ?_⟩
  obtain ⟨p, data, -, -, hverify, -⟩ := @System.evidence_bound Scenario.hashing Scenario.config _ _
    (Run.foldl _ _ Scenario.serviceOnly_cycle) e he
  exact ⟨data, hverify⟩

end PaaRuntime
