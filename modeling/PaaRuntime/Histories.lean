import PaaRuntime.Raises
import PaaRuntime.SystemSpec

/-!
# Histories

Every history that the service writes follows the motion rules, whatever its clients' interleaving,
their clocks and their failures. The invariant `System.Written` holds of every state that clients
without imports reach: each motion has one of the three histories, and its proposal stems from a
call that returned (`System.Origin`), with the declaration it loaded and the evidence it stored.
-/

namespace PaaRuntime

open Prog

/-! ## Clients -/

/-- A call of the client has returned that proposed a motion under a declaration, with evidence. -/
inductive Client.Proposed : Client → String → PaaTaskDeclaration → Bytes → Prop
  | propose {args r} :
      Proposed (.propose args (.returned r)) r.draft.motionId r.draft.declaration r.data
  | demote {args r} :
      Proposed (.demote args (.returned r)) r.motion.motionId r.declaration r.data

/-- The client calls no import. -/
def Client.Serves : Client → Prop
  | .importEvents _ _ => False
  | _ => True

/-- What the client's call has raised. -/
def Client.raised? : Client → Option PyError
  | .propose _ (.raised e) => some e
  | .approve _ (.raised e) => some e
  | .reject _ (.raised e) => some e
  | .demote _ (.raised e) => some e
  | .importEvents _ (.raised e) => some e
  | _ => none

/-! ## Tables that follow the rules -/

section Tables

variable {t : Table} {e p : AutonomyEvent} {m : String}

/-- A proposal that fits proposes a new motion. -/
theorem Follows.fresh (h : Follows t) (hfits : Fits t e) (hk : e.event = .motionProposed) :
    motionRows e.motionId t = [] := by
  refine motionRows_eq_nil fun r hr hm => ?_
  obtain ⟨p, hp⟩ := h r hr
  obtain ⟨hpt, hpm⟩ := mem_motionRows.1 hp.head_mem
  exact (hfits.unique p hpt).2 ⟨hpm.trans hm, hp.kind.trans hk.symm⟩

/-- The rows of a pending motion are its proposal. -/
theorem Pending.rows (hp : Pending t m p) (h : Follows t) : motionRows m t = [p] := by
  obtain ⟨q, hq⟩ := h p hp.mem
  rw [hp.motion] at hq
  have hrows := hq.eq_singleton fun e he =>
    hp.alone e (mem_motionRows.1 he).1 (mem_motionRows.1 he).2
  rw [hq.eq_of_proposed (mem_motionRows.2 ⟨hp.mem, hp.motion⟩) hp.kind, hrows]

end Tables

namespace System

variable [Hashlib] {config : RuntimeConfig} {W : System} {D : PaaTaskDeclaration → Prop}

/-- What a call has proposed stays proposed. -/
theorem proposed_next {j : ℕ} {m : String} {d : PaaTaskDeclaration} {data : Bytes}
    (h : (W.thread j).Proposed m d data) (a : Action) :
    ((next config W a).thread j).Proposed m d data := by
  have hact : ∀ (i : ℕ) (f : Shared → Client → Shared × Client),
      (∀ c, c.Proposed m d data → (f W.shared c).2.Proposed m d data) →
        ((W.act i f).thread j).Proposed m d data := by
    intro i f hf
    by_cases hji : j = i
    · subst hji
      rw [Threads.act_thread_self]
      exact hf _ h
    · rwa [W.act_thread_of_ne f hji]
  cases a with
  | replaceDirectory directory => exact h
  | start i call => exact hact i _ fun c hc => by cases hc <;> constructor
  | advance i io outcome => exact hact i _ fun c hc => by cases hc <;> constructor
  | crash i => exact hact i _ fun c hc => by cases hc <;> constructor

theorem next_extends (h : Inv D W) (a : Action) :
    W.shared.disk.Extends (next config W a).shared.disk := by
  cases a with
  | replaceDirectory directory => exact Disk.Extends.refl _
  | start i call => exact (start_advances config h i call).disk
  | advance i io outcome => exact (Client.advance_spec config h.shared (h.own i) io outcome).disk
  | crash i => exact (crash_advances config h i).disk

/-! ## Where motions come from -/

/-- A proposal stems from a call that returned: it has the declaration's task and version, a scope
the declaration permits, one of its transitions, and its evidence holds the call's bytes. -/
structure Origin (W : System) (p : AutonomyEvent) (d : PaaTaskDeclaration) (data : Bytes) :
    Prop where
  client : ∃ j, (W.thread j).Proposed p.motionId d data
  triple : p.triple = d.triple p.scope
  permits : d.Permits p.scope
  declares : d.Declares p.fromPosition p.toPosition
  stored : Stored W.shared.disk data p.evidenceRef p.evidenceSha256

theorem Origin.next {p : AutonomyEvent} {d : PaaTaskDeclaration} {data : Bytes}
    (h : Origin W p d data) (hinv : Inv D W) (a : Action) : Origin (next config W a) p d data := by
  obtain ⟨j, hj⟩ := h.client
  exact ⟨⟨j, proposed_next hj a⟩, h.triple, h.permits, h.declares,
    h.stored.mono (next_extends hinv a)⟩

/-- The motion of a row follows the rules, and stems from a call. -/
def MotionWritten (W : System) (m : String) : Prop :=
  ∃ p d data, MotionHistory p (motionRows m W.shared.table) ∧ Origin W p d data

/-- Only the service has written. -/
structure Written (W : System) : Prop where
  serves : ∀ i, (W.thread i).Serves
  motions : ∀ e ∈ W.shared.table, MotionWritten W e.motionId

theorem Written.follows (h : Written W) : Follows W.shared.table := fun e he => by
  obtain ⟨p, -, -, hp, -⟩ := h.motions e he
  exact ⟨p, hp⟩

/-- The rows of a commit make their motion follow the rules. -/
theorem commits_written (hinv : Inv D W) (hW : Written W) {a : Action} {i : ℕ}
    {written : List AutonomyEvent} (hinv' : Inv D (next config W a))
    (htable : (next config W a).shared.table = W.shared.table ++ written)
    (h : Commits config W.shared (W.thread i) ((next config W a).thread i) written) :
    ∃ m, (∀ e ∈ written, e.motionId = m) ∧ MotionWritten (next config W a) m := by
  have hbefore := hinv.own i
  have hafter := (hinv'.own i).knows
  have hserves := hW.serves i
  have hold : ∀ p ∈ W.shared.table, MotionWritten W p.motionId := hW.motions
  unfold MotionWritten
  generalize hc : W.thread i = c at h hbefore hserves
  generalize hc' : (next config W a).thread i = c' at h hafter
  cases h with
  | @propose args data p m e hlock hpro hm =>
    obtain ⟨id, createdAt, rfl⟩ := hpro.row
    have hready : p.Ready D args (next config W a).shared.disk data := hafter
    have hms : ∀ e ∈ [p.proposal (positionIn W.shared.table p.declaration p.scope) id createdAt],
        e.motionId = p.motionId := by simp [Draft.proposal]
    refine ⟨p.motionId, hms, _, p.declaration, data, ?_,
      ⟨⟨i, hc' ▸ .propose⟩, rfl, ?_, hpro.declared, hready.stored⟩⟩
    · have hfresh : motionRows p.motionId W.shared.table = [] := hW.follows.fresh hpro.fits rfl
      rw [htable, motionRows_append_self _ hms, hfresh]
      exact .proposed rfl
    · show p.declaration.Permits p.scope
      rw [hready.scope]
      exact hready.loaded.permits
  | @approve args actor m p a' c hlock happ =>
    obtain ⟨ida, ata, rfl⟩ := happ.approvedRow
    obtain ⟨idc, atc, rfl⟩ := happ.changedRow
    obtain ⟨q, d, data, hq, horigin⟩ := hold p happ.pending.mem
    have hrows := happ.pending.rows hW.follows
    rw [happ.pending.motion, hrows] at hq
    obtain rfl : p = q := hq.eq_of_proposed List.mem_cons_self happ.pending.kind
    refine ⟨args.motionId, by simp [approvalRow], p, d, data, ?_, horigin.next hinv a⟩
    rw [htable, motionRows_append_self _ (by simp [approvalRow]), hrows]
    exact .executed happ.pending.kind rfl rfl rfl rfl
  | @reject args actor m p r hlock hrej =>
    obtain ⟨id, createdAt, rfl⟩ := hrej.row
    obtain ⟨q, d, data, hq, horigin⟩ := hold p hrej.pending.mem
    have hrows := hrej.pending.rows hW.follows
    rw [hrej.pending.motion, hrows] at hq
    obtain rfl : p = q := hq.eq_of_proposed List.mem_cons_self hrej.pending.kind
    refine ⟨args.motionId, by simp [rejectionRow], p, d, data, ?_, horigin.next hinv a⟩
    rw [htable, motionRows_append_self _ (by simp [rejectionRow]), hrows]
    exact .rejected hrej.pending.kind rfl rfl
  | @demote args d actor fromPosition call ref sha left m p a' c hcall hdem =>
    obtain ⟨hloaded, -, hfrom, -⟩ := hbefore.knows
    obtain ⟨-, href⟩ := (hbefore.call call rfl).finished _ _ hcall
    obtain ⟨rfl, rfl⟩ := Prod.mk.inj href
    obtain ⟨-, hpub, -⟩ := hafter
    have hfits := hdem.fits.1
    obtain ⟨idp, atp, rfl⟩ := hdem.proposedRow
    obtain ⟨ida, ata, rfl⟩ := hdem.approvedRow
    obtain ⟨idc, atc, rfl⟩ := hdem.changedRow
    have hfresh : motionRows m.motionId W.shared.table = [] := hW.follows.fresh hfits rfl
    refine ⟨m.motionId, by simp [demotionRow], demotionRow args d actor m.motionId fromPosition
      (evidenceRefFor call.digest.hex) call.digest.hex .motionProposed idp atp, d, call.data, ?_,
      ⟨⟨i, hc' ▸ .demote⟩, rfl, hloaded.permits, .inr ⟨hfrom, rfl⟩, ⟨hpub, rfl, rfl⟩⟩⟩
    rw [htable, motionRows_append_self _ (by simp [demotionRow]), hfresh]
    exact .executed rfl rfl rfl rfl rfl
  | importEvents => cases hserves

theorem serves_next {a : Action} (ha : ServiceOnly W a) (h : ∀ i, (W.thread i).Serves) (j : ℕ) :
    ((next config W a).thread j).Serves := by
  have hact : ∀ (i : ℕ) (f : Shared → Client → Shared × Client),
      (∀ c, c.Serves → (f W.shared c).2.Serves) → ((W.act i f).thread j).Serves := by
    intro i f hf
    by_cases hji : j = i
    · subst hji
      rw [Threads.act_thread_self]
      exact hf _ (h j)
    · rw [W.act_thread_of_ne f hji]
      exact h j
  cases a with
  | replaceDirectory directory => exact h j
  | start i call =>
    refine hact i _ fun c hc => ?_
    cases c <;> cases call <;> first | exact hc | exact ha
  | advance i io outcome =>
    refine hact i _ fun c hc => ?_
    rcases c with _ | ⟨args, stage⟩ | ⟨args, stage⟩ | ⟨args, stage⟩ | ⟨args, stage⟩ | ⟨args, stage⟩
    case importEvents => cases hc
    all_goals first | exact hc | cases stage <;> trivial
  | crash i => exact hact i _ fun c hc => by cases c <;> exact hc

/-- **Every action keeps the rules.** -/
theorem written_next (hinv : Inv D W) (hW : Written W) {a : Action} (ha : ServiceOnly W a)
    (ha' : LoadsOnly D W a) : Written (next config W a) := by
  have hinv' : Inv D (next config W a) := inv_next hinv ha'
  have hkeep : ∀ e ∈ W.shared.table, motionRows e.motionId (next config W a).shared.table =
      motionRows e.motionId W.shared.table → MotionWritten (next config W a) e.motionId := by
    intro e he hrows
    obtain ⟨p, d, data, hp, horigin⟩ := hW.motions e he
    exact ⟨p, d, data, hrows ▸ hp, horigin.next hinv a⟩
  refine ⟨serves_next ha hW.serves, ?_⟩
  rcases next_table hinv a with hsame | ⟨i, io, outcome, written, -, htable, hcommits⟩
  · intro e he
    rw [hsame] at he
    exact hkeep e he (by rw [hsame])
  · obtain ⟨m, hms, hm⟩ := commits_written hinv hW hinv' htable hcommits
    intro e he
    by_cases hem : e.motionId = m
    · rwa [hem]
    · rw [htable, List.mem_append] at he
      rcases he with he | he
      · have hnone : motionRows e.motionId written = [] :=
          motionRows_eq_nil fun r hr hrm => hem (hrm.symm.trans (hms r hr))
        exact hkeep e he (by rw [htable, motionRows_append, hnone, List.append_nil])
      · exact absurd (hms e he) hem

theorem written_init (directory : Directory) : Written (init directory) :=
  ⟨fun _ => trivial, fun _ he => absurd he List.not_mem_nil⟩

/-! ## Exceptions -/

section Raised

variable {i : ℕ} {io : Io} {outcome : StepOutcome} {sh : Shared} {c : Client} {e : PyError}

omit [Hashlib] in
/-- A part of a call that raises nothing corrupt, and goes on otherwise. -/
theorem run_notCorrupt {α Λ ρ : Type} {w : Stage Λ ρ → Client} {x : Py α} {k : α → Stage Λ ρ}
    (hx : ∀ e s, x (sh.session i io) = (.error e, s) → NotCorrupt e)
    (hw : ∀ e, (w (.raised e)).raised? = some e) (hk : ∀ a, (w (k a)).raised? = none)
    (h : (w (sh.run i io x k).2).raised? = some e) : NotCorrupt e := by
  rcases sh.run_cases i io x k with ⟨a, s, -, hr⟩ | ⟨e', s, hrun, hr⟩ <;> rw [hr] at h
  · rw [hk a] at h
    cases h
  · rw [hw e'] at h
    cases h
    exact hx e s hrun

theorem store_raised {Λ ρ : Type} {w : Stage Λ ρ → Client} {root : String} {call : StoreCall}
    {k : StoreCall → Λ} (hcrashed : (w .crashed).raised? = none)
    (hk : ∀ call, (w (.running (k call))).raised? = none) :
    (w (sh.store i root outcome call k : Shared × Stage Λ ρ).2).raised? = none := by
  unfold Shared.store
  dsimp only
  split
  · exact hcrashed
  · exact hk _

/-- Storing evidence raises nothing corrupt. -/
theorem resultOk_notCorrupt {disk : Disk} {call : StoreCall}
    (h : call.ResultOk True disk (.error e)) : NotCorrupt e := by
  rcases h with ⟨-, hf⟩ | ⟨he, -⟩
  · exact notCorrupt_of_isFault hf
  · simp [he]

theorem propose_notCorrupt {args : ProposeArgs} {l : ProposeAt}
    (hok : (Client.propose args (.running l)).Ok D i sh)
    (h : (Client.propose args (proposeStep config args i io outcome sh l).2).raised? = some e) :
    NotCorrupt e := by
  have hw : ∀ e : PyError, (Client.propose args (.raised e)).raised? = some e := fun _ => rfl
  cases l with
  | called => exact run_notCorrupt (fun _ _ => sound_proposeLoad _ _ _ _ _) hw (fun _ => rfl) h
  | loaded d toPosition =>
    exact run_notCorrupt (fun _ _ => sound_proposeCheck _ _ _ _ _ _) hw (fun _ => rfl) h
  | checked d toPosition =>
    exact run_notCorrupt (fun _ _ => sound_proposeRead _ _ _ _) hw (fun _ => rfl) h
  | storing d toPosition call =>
    simp only [proposeStep] at h
    split at h
    · exact run_notCorrupt (fun _ _ => sound_proposeActor _ _ _ _ _) hw (fun _ => rfl) h
    · next e' left hpc =>
      cases h
      exact resultOk_notCorrupt ((hok.call call rfl).finished _ _ hpc)
    · rw [store_raised rfl fun _ => rfl] at h
      cases h
  | ready data p =>
    exact run_notCorrupt (fun _ _ => sound_proposeLocked _ _ _ _) hw (fun _ => rfl) h

theorem demote_notCorrupt {args : DemoteArgs} {l : DemoteAt}
    (hok : (Client.demote args (.running l)).Ok D i sh)
    (h : (Client.demote args (demoteStep config args i io outcome sh l).2).raised? = some e) :
    NotCorrupt e := by
  have hw : ∀ e : PyError, (Client.demote args (.raised e)).raised? = some e := fun _ => rfl
  cases l with
  | called => exact run_notCorrupt (fun _ _ => sound_demoteLoad _ _ _ _ _) hw (fun _ => rfl) h
  | loaded d actor =>
    exact run_notCorrupt (fun _ _ => sound_demoteOpen _ _ _ _ _ _ _) hw (fun _ => rfl) h
  | storing d actor fromPosition call =>
    simp only [demoteStep] at h
    split at h
    · exact run_notCorrupt (fun _ _ => sound_demoteClose _ _ _ _ _ _ _ _ _) hw (fun _ => rfl) h
    · next e' left hpc =>
      have he' := resultOk_notCorrupt ((hok.call call rfl).finished _ _ hpc)
      rcases sh.run_cases i io (rollbackOnError (throw e' : Py Unit)) fun _ => .raised e' with
        ⟨_, s, hrun, -⟩ | ⟨e'', s, hrun, hr⟩
      · exact absurd (rollbackOnError_ok.1 hrun) throw_ok
      · rw [hr] at h
        cases h
        exact sound_rollbackOnError (RaisesOnly.throw he') _ _ _ hrun
    · rw [store_raised rfl fun _ => rfl] at h
      cases h

/-- No step of a client of a table that follows the rules raises a report of a corrupt history. -/
theorem advance_notCorrupt (hok : c.Ok D i sh) (hserves : c.Serves) (hrules : Follows sh.table)
    (h : (c.advance config i io outcome sh).2.raised? = some e) :
    c.raised? = some e ∨ NotCorrupt e := by
  cases c with
  | idle => cases h
  | propose args stage =>
    cases stage with
    | running l => exact .inr (propose_notCorrupt hok h)
    | _ => exact .inl h
  | approve args stage =>
    have hw : ∀ e : PyError, (Client.approve args (.raised e)).raised? = some e := fun _ => rfl
    rcases stage with (_ | actor) | _ | _ | _
    · exact .inr (run_notCorrupt (fun _ _ => sound_reasonedActor _ _ _ _ _ _ _) hw (fun _ => rfl) h)
    · exact .inr (run_notCorrupt (fun _ _ => approveLocked_notCorrupt hrules) hw (fun _ => rfl) h)
    all_goals exact .inl h
  | reject args stage =>
    have hw : ∀ e : PyError, (Client.reject args (.raised e)).raised? = some e := fun _ => rfl
    rcases stage with (_ | actor) | _ | _ | _
    · exact .inr (run_notCorrupt (fun _ _ => sound_reasonedActor _ _ _ _ _ _ _) hw (fun _ => rfl) h)
    · exact .inr (run_notCorrupt (fun _ _ => rejectLocked_notCorrupt hrules) hw (fun _ => rfl) h)
    all_goals exact .inl h
  | demote args stage =>
    cases stage with
    | running l => exact .inr (demote_notCorrupt hok h)
    | _ => exact .inl h
  | importEvents => cases hserves

theorem raised_next (hinv : Inv D W) (hW : Written W)
    (h : ∀ i e, (W.thread i).raised? = some e → NotCorrupt e) (a : Action) (j : ℕ) :
    ∀ e, ((next config W a).thread j).raised? = some e → NotCorrupt e := by
  intro e he
  have hact : ∀ (i : ℕ) (f : Shared → Client → Shared × Client),
      ((W.act i f).thread j).raised? = some e →
      (i = j → (f W.shared (W.thread j)).2.raised? = some e →
        (W.thread j).raised? = some e ∨ NotCorrupt e) → NotCorrupt e := by
    intro i f hraised hf
    by_cases hji : j = i
    · subst hji
      rw [Threads.act_thread_self] at hraised
      exact (hf rfl hraised).elim (h j e) id
    · rw [W.act_thread_of_ne f hji] at hraised
      exact h j e hraised
  cases a with
  | replaceDirectory directory => exact h j e he
  | start i call =>
    refine hact i _ he fun _ hr => .inl ?_
    generalize W.thread j = c at hr ⊢
    cases c <;> cases call <;> exact hr
  | advance i io outcome =>
    refine hact i _ he fun hij hr => ?_
    subst hij
    exact advance_notCorrupt (hinv.own i) (hW.serves i) hW.follows hr
  | crash i =>
    refine hact i _ he fun _ hr => .inl ?_
    generalize W.thread j = c at hr ⊢
    rcases c with _ | ⟨args, stage⟩ | ⟨args, stage⟩ | ⟨args, stage⟩ | ⟨args, stage⟩ | ⟨args, stage⟩
    case idle => exact hr
    all_goals cases stage <;> cases hr

end Raised

/-! ## Runs -/

theorem written_run {W' : System} (hinv : Inv (fun _ => True) W) (hW : Written W)
    (h : Run (next config) ServiceOnly W W') : Written W' :=
  (h.invariant (P := fun W => Inv (fun _ => True) W ∧ Written W)
    (fun W a ha hW => ⟨inv_next hW.1 (loadsOnly_true W a),
      written_next hW.1 hW.2 ha (loadsOnly_true W a)⟩) ⟨hinv, hW⟩).2

theorem raised_reach {directory : Directory} (h : Run (next config) ServiceOnly (init directory) W) :
    ∀ i e, (W.thread i).raised? = some e → NotCorrupt e := by
  refine (h.invariant (P := fun W => (Inv (fun _ => True) W ∧ Written W) ∧
    ∀ i e, (W.thread i).raised? = some e → NotCorrupt e) ?_
      ⟨⟨inv_init fun _ _ _ _ => trivial, written_init directory⟩, fun _ _ he => by cases he⟩).2
  rintro W a ha ⟨⟨hinv, hW⟩, hraised⟩
  exact ⟨⟨inv_next hinv (loadsOnly_true W a), written_next hinv hW ha (loadsOnly_true W a)⟩,
    raised_next hinv hW hraised a⟩

/-- **Every history the service writes obeys the motion rules.** -/
theorem history_rules {directory : Directory}
    (h : Run (next config) ServiceOnly (init directory) W) :
    -- every motion has one of the three histories, and stems from the call that proposed it
    (∀ e ∈ W.shared.table, ∃ p d data,
      MotionHistory p (motionRows e.motionId W.shared.table) ∧ Origin W p d data) ∧
    -- a motion that has left the one-event form never changes again
    (∀ W', Run (next config) ServiceOnly W W' → ∀ m, 1 < (motionRows m W.shared.table).length →
      motionRows m W'.shared.table = motionRows m W.shared.table) ∧
    -- no motion is both rejected and executed
    (∀ r ∈ W.shared.table, r.event = .motionRejected → ∀ e ∈ W.shared.table,
      e.motionId = r.motionId → e.event ≠ .motionApproved ∧ e.event ≠ .positionChanged) ∧
    -- none projects to the status approved, nor is any listed so, nor does listing find one corrupt
    (∀ m motion, projectMotion (eventsForMotion m W.shared.table) = .ok motion →
      motion.status ≠ .approved) ∧
    (∀ i io status task r s, listMotions status task (W.shared.session i io) = (r, s) →
      (∀ e, r = .error e → e.cls ≠ .paaCorruptHistoryError) ∧
        ∀ ms, r = .ok ms → ∀ m ∈ ms, m.status ≠ .approved) ∧
    -- no call has raised a report of a corrupt history
    ∀ i e, (W.thread i).raised? = some e → e.cls ≠ .paaCorruptHistoryError := by
  have hinv : Inv (fun _ => True) W := inv_reach h
  have hW : Written W := written_run (inv_init fun _ _ _ _ => trivial) (written_init directory) h
  refine ⟨hW.motions, ?_, ?_, ?_, ?_, raised_reach h⟩
  · intro W' h' m hlen
    have hW' : Written W' := written_run hinv hW h'
    obtain ⟨more, hmore⟩ := run_table (fun W a _ => loadsOnly_true W a) hinv h'
    obtain ⟨e, he⟩ := List.exists_mem_of_length_pos (Nat.zero_lt_of_lt hlen)
    obtain ⟨het, rfl⟩ := mem_motionRows.1 he
    obtain ⟨p, hp⟩ := hW.follows e het
    obtain ⟨q, hq⟩ := hW'.follows e (by rw [hmore]; exact List.mem_append_left more het)
    rw [hmore, motionRows_append] at hq ⊢
    rw [hp.final hq hlen, List.append_nil]
  · intro r hr hk e he hem
    obtain ⟨p, hp⟩ := hW.follows r hr
    exact hp.not_both (mem_motionRows.2 ⟨hr, rfl⟩) hk (mem_motionRows.2 ⟨he, hem⟩)
  · intro m motion hm
    obtain ⟨p, hp, -, hstatus⟩ := projectMotion_ok hm
    obtain ⟨rows, hrows, hmem⟩ := hW.follows.found hp
    rw [hstatus]
    exact hrows.status_ne_approved hmem
  · intro i io status task r s hrun
    exact listMotions_follows (by rw [Shared.session_view]; exact hW.follows) hrun

end System

/-! ## A promotion and a demotion -/

namespace Scenario

/-- A task that starts at `hitl` and moves between `hitl` and `hotl`. -/
def declaration : PaaTaskDeclaration where
  task := "t"
  version := 1
  deployment := .active
  initialPosition := .hitl
  evaluators := []
  positionPolicy := ⟨[]⟩
  promotion := ⟨.hitl, .hotl, "report", .cases 1, .operatorApproval⟩
  demotion := ⟨.hotl, .hitl, "trigger", .cases 1⟩
  scopes := none

/-- Texts that increase with `(n, k)`. -/
def text (n k : ℕ) : String := String.ofList [Char.ofNat (48 + n), Char.ofNat (48 + k)]

/-- Surroundings in which nothing fails; clock and ids read `text n`. -/
def io (n : ℕ) : Io where
  faults := fun _ => none
  commits := fun _ => .done
  clock := text n
  eventIds := text n
  motionIds := text n
  tempNames := text n
  written := 0
  files := fun _ => some [1]
  environ := fun _ => none
  login := .ok "operator"
  login_error := login_ok

def config : RuntimeConfig := ⟨"declarations", "root", "PAA_ACTOR"⟩

/-- A digest function that tells one byte from longer data. -/
abbrev hashing : Hashlib where
  sha256
    | [_] => ⟨"aaaaaaaaaaaaaaaaaaaaaaaaaaaaaaaaaaaaaaaaaaaaaaaaaaaaaaaaaaaaaaaa", by decide⟩
    | _ => ⟨"bbbbbbbbbbbbbbbbbbbbbbbbbbbbbbbbbbbbbbbbbbbbbbbbbbbbbbbbbbbbbbbb", by decide⟩

/-- Client `i` calls, and goes on for a number of parts, the first of them in surroundings `n`. -/
def calls (i : ℕ) (call : Call) (n parts : ℕ) : List Action :=
  .start i call :: (List.range parts).map fun k => .advance i (io (n + k)) (.completes "tmp")

/-- The actions of calls replace no directory, and import only if the call does. -/
theorem mem_calls {i n parts : ℕ} {call : Call} {a : Action} (ha : a ∈ calls i call n parts) :
    a = .start i call ∨ ∃ k, a = .advance i (io k) (.completes "tmp") := by
  rcases List.mem_cons.1 ha with rfl | ha
  · exact .inl rfl
  · obtain ⟨k, -, rfl⟩ := List.mem_map.1 ha
    exact .inr ⟨n + k, rfl⟩

/-- A promotion is proposed and approved, and then demoted. -/
def cycle : List Action :=
  calls 0 (.propose ⟨"t", none, "hotl", "file", none, none⟩) 0 11 ++
    (calls 1 (.approve ⟨text 9 0, "fine", none⟩) 11 2 ++
      calls 2 (.demote ⟨"t", none, "incident", none, []⟩) 13 9)

theorem mem_cycle {a : Action} (ha : a ∈ cycle) :
    (∃ i call, a = .start i call ∧ ∀ events, call ≠ .importEvents events) ∨
      ∃ i k, a = .advance i (io k) (.completes "tmp") := by
  simp only [cycle, List.mem_append] at ha
  rcases ha with ha | ha | ha <;> rcases mem_calls ha with rfl | ⟨k, rfl⟩
  all_goals first | exact .inl ⟨_, _, rfl, nofun⟩ | exact .inr ⟨_, k, rfl⟩

theorem serviceOnly_cycle : ∀ a ∈ cycle, ∀ W, System.ServiceOnly W a := by
  intro a ha W
  rcases mem_cycle ha with ⟨i, call, rfl, hcall⟩ | ⟨i, k, rfl⟩
  · cases call <;> first | trivial | exact absurd rfl (hcall _)
  · trivial

/-- The actions, from an empty store. -/
def after (actions : List Action) : System :=
  actions.foldl (@System.next hashing config) (System.init (.ok [declaration]))

end Scenario

theorem System.history_rules_cycle :
    ∃ c ∈ (Scenario.after Scenario.cycle).shared.table, c.event = .positionChanged ∧
      ∃ p d data, MotionHistory p (motionRows c.motionId (Scenario.after Scenario.cycle).shared.table) ∧
        @Origin Scenario.hashing (Scenario.after Scenario.cycle) p d data := by
  have hmem : ∃ c ∈ (Scenario.after Scenario.cycle).shared.table, c.event = .positionChanged := by
    decide +kernel
  obtain ⟨c, hc, hk⟩ := hmem
  exact ⟨c, hc, hk, (@System.history_rules Scenario.hashing Scenario.config _ _
    (Run.foldl _ _ Scenario.serviceOnly_cycle)).1 c hc⟩

end PaaRuntime
