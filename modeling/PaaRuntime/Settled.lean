import Mathlib.Data.List.Pairwise
import PaaRuntime.Histories
import PaaRuntime.Quiet

/-!
# Motions that are settled

`approve` and `reject` decide by the rows a motion has, however these came about. A motion is
`Settled` by one of them when its rows are exactly the history that operation writes; then calling it
again returns the same motion and writes nothing, in every later state, since nothing the service
writes later is a row of a settled motion.
-/

namespace PaaRuntime

open Prog

/-! ## Rows by kind -/

/-- `UNIQUE(motion_id, event)`. -/
def UniqueRows (t : Table) : Prop :=
  t.Pairwise fun e e' => ¬ (e.motionId = e'.motionId ∧ e.event = e'.event)

section Rows

variable {t : Table} {m : String} {e e' p a c r : AutonomyEvent} {k : AutonomyEventType}

theorem UniqueRows.eq (hu : UniqueRows t) (he : e ∈ t) (he' : e' ∈ t)
    (hm : e.motionId = e'.motionId) (hk : e.event = e'.event) : e = e' := by
  by_contra hne
  have _ : Std.Symm fun e e' : AutonomyEvent =>
      ¬ (e.motionId = e'.motionId ∧ e.event = e'.event) :=
    ⟨fun _ _ h h' => h ⟨h'.1.symm, h'.2.symm⟩⟩
  exact hu.forall he he' hne ⟨hm, hk⟩

theorem UniqueRows.nodup (hu : UniqueRows t) : (motionRows m t).Nodup :=
  (hu.imp fun h heq => h ⟨by rw [heq], by rw [heq]⟩).sublist List.filter_sublist

/-- A motion has exactly the rows that are found by their kinds. -/
theorem mem_motionRows_iff (hu : UniqueRows t) :
    e ∈ motionRows m t ↔ byEvent (eventsForMotion m t) e.event = some e := by
  constructor
  · intro he
    obtain ⟨x, hx⟩ := Option.isSome_iff_exists.1
      (byEvent_isSome.2 ⟨e, mem_eventsForMotion_iff.2 he, rfl⟩)
    obtain ⟨hxm, hxk⟩ := byEvent_eq_some hx
    obtain ⟨hxt, hxm⟩ := mem_eventsForMotion.1 hxm
    obtain ⟨het, hem⟩ := mem_motionRows.1 he
    rw [hx, hu.eq hxt het (hxm.trans hem.symm) hxk]
  · intro h
    exact mem_eventsForMotion_iff.1 (byEvent_eq_some h).1

theorem Executed.rows (hu : UniqueRows t) (h : Executed t m p a c) :
    (motionRows m t).Perm [p, a, c] ∧ MotionHistory p [p, a, c] := by
  obtain ⟨-, hp⟩ := byEvent_eq_some h.proposal
  obtain ⟨-, ha⟩ := byEvent_eq_some h.approval
  obtain ⟨-, hc⟩ := byEvent_eq_some h.change
  have hnodup : [p, a, c].Nodup := by grind
  refine ⟨(List.perm_ext_iff_of_nodup hu.nodup hnodup).2 fun e => ?_,
    .executed hp ha hc h.identity.1 h.identity.2⟩
  rw [mem_motionRows_iff hu]
  cases hk : e.event <;>
    simp only [h.proposal, h.rejection, h.approval, h.change, List.mem_cons] <;> grind

theorem Rejected.rows (hu : UniqueRows t) (h : Rejected t m p r) :
    (motionRows m t).Perm [p, r] ∧ MotionHistory p [p, r] := by
  obtain ⟨-, hp⟩ := byEvent_eq_some h.proposal
  obtain ⟨-, hr⟩ := byEvent_eq_some h.rejection
  have hnodup : [p, r].Nodup := by grind
  refine ⟨(List.perm_ext_iff_of_nodup hu.nodup hnodup).2 fun e => ?_, .rejected hp hr h.identity⟩
  rw [mem_motionRows_iff hu]
  cases hk : e.event <;>
    simp only [h.proposal, h.rejection, h.approval, h.change, List.mem_cons] <;> grind

theorem Pending.rows_of_unique (hu : UniqueRows t) (h : Pending t m p) : motionRows m t = [p] := by
  refine List.perm_singleton.1 ((List.perm_ext_iff_of_nodup hu.nodup (List.nodup_singleton p)).2 ?_)
  intro e
  rw [List.mem_singleton]
  constructor
  · intro he
    obtain ⟨het, hem⟩ := mem_motionRows.1 he
    exact hu.eq het h.mem (hem.trans h.motion.symm) ((h.alone e het hem).trans h.kind.symm)
  · intro he
    rw [he]
    exact mem_motionRows.2 ⟨h.mem, h.motion⟩

end Rows

/-! ## Settled motions -/

/-- The operations that settle a motion. -/
inductive Settling
  | approve | reject
  deriving DecidableEq

/-- A call of the operation. -/
def Settling.run [Hashlib] (config : RuntimeConfig) (args : MotionArgs) : Settling → Py Motion
  | .approve => PaaRuntime.approve config args
  | .reject => PaaRuntime.reject config args

/-- The other operation. -/
def Settling.other : Settling → Settling
  | .approve => .reject
  | .reject => .approve

/-- A motion whose rows are exactly the history that an operation writes. -/
inductive Settled (t : Table) (m : String) : Settling → Prop
  | executed {p a c} (rows : (motionRows m t).Perm [p, a, c])
      (history : MotionHistory p [p, a, c]) : Settled t m .approve
  | rejected {p r} (rows : (motionRows m t).Perm [p, r]) (history : MotionHistory p [p, r]) :
      Settled t m .reject

section Settled

variable {t written : Table} {m : String} {op : Settling} {e : AutonomyEvent}

/-- The rows of an executed motion are found by their kinds. -/
theorem Settled.approve_found (h : Settled t m .approve) : ∃ p a c, Executed t m p a c := by
  obtain @⟨p, a, c, rows, history⟩ := h
  obtain _ | _ | ⟨hp, ha, hc, hai, hci⟩ := history
  refine ⟨p, a, c, ?_, ?_, ?_, ?_, hai, hci⟩ <;>
    rw [byEvent_of_perm rows] <;> simp [List.filter, hp, ha, hc]

theorem Settled.reject_found (h : Settled t m .reject) : ∃ p r, Rejected t m p r := by
  obtain _ | @⟨p, r, rows, history⟩ := h
  obtain _ | ⟨hp, hr, hri⟩ := history
  refine ⟨p, r, ?_, ?_, ?_, ?_, hri⟩ <;>
    rw [byEvent_of_perm rows] <;> simp [List.filter, hp, hr]

/-- A settled motion has its proposal and a row of another kind. -/
theorem Settled.mem (h : Settled t m op) :
    (∃ p ∈ t, p.motionId = m ∧ p.event = .motionProposed) ∧
      ∃ e ∈ t, e.motionId = m ∧ e.event ≠ .motionProposed := by
  have hmem : ∀ {rows : Table} {e : AutonomyEvent}, (motionRows m t).Perm rows → e ∈ rows →
      e ∈ t ∧ e.motionId = m := fun hrows he => mem_motionRows.1 (hrows.mem_iff.2 he)
  cases h with
  | @executed p a c rows history =>
    obtain _ | _ | ⟨hp, ha, hc, -, -⟩ := history
    obtain ⟨hpt, hpm⟩ := hmem (e := p) rows (by simp)
    obtain ⟨hat, ham⟩ := hmem (e := a) rows (by simp)
    exact ⟨⟨p, hpt, hpm, hp⟩, a, hat, ham, by simp [ha]⟩
  | @rejected p r rows history =>
    obtain _ | ⟨hp, hr, -⟩ := history
    obtain ⟨hpt, hpm⟩ := hmem (e := p) rows (by simp)
    obtain ⟨hrt, hrm⟩ := hmem (e := r) rows (by simp)
    exact ⟨⟨p, hpt, hpm, hp⟩, r, hrt, hrm, by simp [hr]⟩

/-- Rows of other motions leave a settled motion as it is. -/
theorem motionRows_append_of_ne (h : ∀ e ∈ written, e.motionId ≠ m) :
    motionRows m (t ++ written) = motionRows m t := by
  rw [motionRows_append, motionRows_eq_nil h, List.append_nil]

theorem Settled.congr {t' : Table} (h : Settled t m op) (hrows : motionRows m t' = motionRows m t) :
    Settled t' m op := by
  cases h with
  | executed rows history => exact .executed (by rwa [hrows]) history
  | rejected rows history => exact .rejected (by rwa [hrows]) history

/-- No motion is settled by both operations. -/
theorem Settled.not_other (h : Settled t m op) : ¬ Settled t m op.other := by
  have happrove : Settled t m .approve → ¬ Settled t m .reject := by
    intro ha hr
    obtain ⟨p, a, c, hexec⟩ := ha.approve_found
    obtain ⟨q, r, hrej⟩ := hr.reject_found
    have hnone := hexec.rejection
    rw [hrej.rejection] at hnone
    cases hnone
  cases op with
  | approve => exact happrove h
  | reject => exact fun h' => happrove h' h

end Settled

/-! ## What the service writes later -/

variable [Hashlib]

/-- The rows that one operation of the service appends to a table. -/
inductive Serviced (t : Table) : List AutonomyEvent → Prop
  | nothing : Serviced t []
  | proposed {p e} (h : Proposes p t e) : Serviced t [e]
  | approved {config directory disk args actor p a c}
      (h : Approves config directory disk args actor t p a c) : Serviced t [a, c]
  | rejected {args actor p r} (h : Rejects args actor t p r) : Serviced t [r]
  | demoted {args d actor fromPosition ref sha m p a c}
      (h : Demotes args d actor fromPosition ref sha m t p a c) : Serviced t [p, a, c]

/-- None of them is a row of a settled motion. -/
theorem Serviced.spares {t written : Table} {m : String} {op : Settling} (h : Serviced t written)
    (hs : Settled t m op) : ∀ e ∈ written, e.motionId ≠ m := by
  obtain ⟨⟨q, hq, hqm, hqk⟩, x, hx, hxm, hxk⟩ := hs.mem
  have hfresh : ∀ {e : AutonomyEvent}, Fits t e → e.event = .motionProposed → e.motionId ≠ m :=
    fun hfits hk hem => (hfits.unique q hq).2 ⟨hqm.trans hem.symm, hqk.trans hk.symm⟩
  have hpending : ∀ {m' : String} {p : AutonomyEvent}, Pending t m' p → m' ≠ m :=
    fun hp hm' => hxk (hp.alone x hx (hxm.trans hm'.symm))
  cases h with
  | nothing => simp
  | @proposed p e h =>
    obtain ⟨id, createdAt, hrow⟩ := h.row
    simpa using hfresh h.fits (by rw [hrow]; rfl)
  | approved h =>
    obtain ⟨ida, ata, rfl⟩ := h.approvedRow
    obtain ⟨idc, atc, rfl⟩ := h.changedRow
    simpa [approvalRow] using hpending h.pending
  | rejected h =>
    obtain ⟨id, createdAt, rfl⟩ := h.row
    simpa [rejectionRow] using hpending h.pending
  | demoted h =>
    have hne := hfresh h.fits.1
    obtain ⟨idp, atp, rfl⟩ := h.proposedRow
    obtain ⟨ida, ata, rfl⟩ := h.approvedRow
    obtain ⟨idc, atc, rfl⟩ := h.changedRow
    simpa [demotionRow] using hne rfl

/-- The call is one of the service, not an import. -/
def Call.IsService : Call → Prop
  | .importEvents _ => False
  | _ => True

/-- What a call of the service has appended, however it ends. -/
theorem Call.serviced (config : RuntimeConfig) {call : Call} (hcall : call.IsService) (s : Session) :
    ∃ written, (call.run config s).2.committed = s.committed ++ written ∧
      Serviced s.committed written := by
  rcases hrun : call.run config s with ⟨e | m, s'⟩
  · refine ⟨[], ?_, .nothing⟩
    rw [List.append_nil]
    exact call.run_raisesClean config s e s' hrun
  · have hmap : ∀ {x : Py Motion}, (some <$> x) s = (.ok m, s') → ∃ a, x s = (.ok a, s') := by
      intro x h
      rw [map_run] at h
      rcases hr : x s with ⟨e | a, s₁⟩ <;> rw [hr] at h <;> cases h
      exact ⟨a, rfl⟩
    cases call with
    | propose args =>
      obtain ⟨_, hr⟩ := hmap hrun
      obtain ⟨p, e, -, -, -, hpro, hc⟩ := propose_ok hr
      exact ⟨[e], hc, .proposed hpro⟩
    | approve args =>
      obtain ⟨_, hr⟩ := hmap hrun
      obtain ⟨-, ⟨-, -, -, -, hc⟩ | ⟨actor, p, a, c, happ, hc⟩⟩ := approve_ok hr
      · exact ⟨[], hc.trans (List.append_nil _).symm, .nothing⟩
      · exact ⟨[a, c], hc, .approved happ⟩
    | reject args =>
      obtain ⟨_, hr⟩ := hmap hrun
      obtain ⟨-, ⟨-, -, -, hc⟩ | ⟨actor, p, r, hrej, hc⟩⟩ := reject_ok hr
      · exact ⟨[], hc.trans (List.append_nil _).symm, .nothing⟩
      · exact ⟨[r], hc, .rejected hrej⟩
    | demote args =>
      obtain ⟨_, hr⟩ := hmap hrun
      obtain ⟨d, actor, fromPosition, ref, sha, p, a, c, -, hdem, hc⟩ := demote_ok hr
      exact ⟨[p, a, c], hc, .demoted hdem⟩
    | importEvents events => cases hcall

namespace System

variable {config : RuntimeConfig} {W : System}

/-- No client is importing. -/
def NotImporting (W : System) : Prop :=
  ∀ i events, W.thread i ≠ .importEvents events (.running ())

theorem notImporting_next {a : Action} (ha : ServiceOnly W a) (h : NotImporting W) :
    NotImporting (next config W a) := by
  intro j events
  have hact : ∀ (i : ℕ) (f : Shared → Client → Shared × Client),
      (∀ c, (∀ events, c ≠ .importEvents events (.running ())) →
        (f W.shared c).2 ≠ .importEvents events (.running ())) →
      (W.act i f).thread j ≠ .importEvents events (.running ()) := by
    intro i f hf
    by_cases hji : j = i
    · subst hji
      rw [Threads.act_thread_self]
      exact hf _ (h j)
    · rw [W.act_thread_of_ne f hji]
      exact h j events
  cases a with
  | replaceDirectory directory => exact h j events
  | start i call =>
    refine hact i _ fun c hc => ?_
    cases c <;> cases call <;> first | exact hc events | exact ha.elim | nofun
  | advance i io outcome =>
    refine hact i _ fun c hc => ?_
    rcases c with _ | ⟨args, stage⟩ | ⟨args, stage⟩ | ⟨args, stage⟩ | ⟨args, stage⟩ | ⟨args, stage⟩
    case importEvents =>
      cases stage with
      | running l => exact absurd rfl (hc args)
      | _ => exact hc events
    case idle => nofun
    all_goals cases stage <;> nofun
  | crash i =>
    refine hact i _ fun c hc => ?_
    rcases c with _ | ⟨args, stage⟩ | ⟨args, stage⟩ | ⟨args, stage⟩ | ⟨args, stage⟩ | ⟨args, stage⟩
    case importEvents => cases stage <;> nofun
    all_goals nofun

/-- What an action has appended where no client imports. -/
theorem next_serviced (config : RuntimeConfig) (hinv : Inv (fun _ => True) W) (himport : NotImporting W) (a : Action) :
    ∃ written, (next config W a).shared.table = W.shared.table ++ written ∧
      Serviced W.shared.table written := by
  rcases next_table hinv a with hsame | ⟨i, io, outcome, written, -, htable, hcommits⟩
  · exact ⟨[], hsame.trans (List.append_nil _).symm, .nothing⟩
  · refine ⟨written, htable, ?_⟩
    have hnot := himport i
    generalize W.thread i = c at hcommits hnot
    generalize (next config W a).thread i = c' at hcommits
    cases hcommits with
    | propose _ h => exact .proposed h
    | approve _ h => exact .approved h
    | reject _ h => exact .rejected h
    | demote _ h => exact .demoted h
    | importEvents => exact absurd rfl (hnot _)

end System

/-- A table that later operations of the service reach, called one after the other on whatever
declarations, evidence and surroundings there are by then, or by interleaved clients. -/
inductive Later (t : Table) : Table → Prop
  | now : Later t t
  | call {s : Session} (h : Later t s.committed) (config : RuntimeConfig) {call : Call}
      (hcall : call.IsService) : Later t (call.run config s).2.committed
  | clients {W W' : System} (h : Later t W.shared.table) {config : RuntimeConfig}
      (hinv : System.Inv (fun _ => True) W) (himport : W.NotImporting)
      (hrun : Run (System.next config) System.ServiceOnly W W') : Later t W'.shared.table

/-- A settled motion gets no rows any more. -/
theorem Later.rows {t t' : Table} {m : String} {op : Settling} (hs : Settled t m op)
    (h : Later t t') : motionRows m t' = motionRows m t := by
  have hgrow : ∀ {t₁ written : Table}, motionRows m t₁ = motionRows m t → Serviced t₁ written →
      motionRows m (t₁ ++ written) = motionRows m t := fun h₁ hw =>
    (motionRows_append_of_ne (hw.spares (hs.congr h₁))).trans h₁
  induction h with
  | now => rfl
  | @call s h config call hcall ih =>
    obtain ⟨written, hc, hw⟩ := Call.serviced config hcall s
    rw [hc]
    exact hgrow ih hw
  | @clients W W' h config hinv himport hrun ih =>
    refine (hrun.invariant (P := fun W' => System.Inv (fun _ => True) W' ∧ W'.NotImporting ∧
      motionRows m W'.shared.table = motionRows m t) ?_ ⟨hinv, himport, ih⟩).2.2
    rintro V a ha ⟨hV, hVi, hVr⟩
    obtain ⟨written, htable, hw⟩ := System.next_serviced config hV hVi a
    refine ⟨System.inv_next hV (System.loadsOnly_true V a), System.notImporting_next ha hVi, ?_⟩
    rw [htable]
    exact hgrow hVr hw

/-! ## Calls -/

section

variable {config : RuntimeConfig} {args : MotionArgs} {s s' : Session} {m : Motion}
  {op : Settling}

omit [Hashlib] in
/-- A block is left with the motion that rows with a proposal project to. -/
theorem completes_returned {w : World} (hw : s.world = w) (hq : s.Quiet) {events : Table}
    {p : AutonomyEvent} (h : byEvent events .motionProposed = some p) :
    ∃ m, Completes 0 (do return Exit.returned (← projectMotion events) : Py Exit) s
      (.returned m) w := by
  rcases hm : projectMotion events with e | m
  · exact absurd (byEvent_eq_some h).2 (projectMotion_error hm p (byEvent_eq_some h).1)
  · exact ⟨m, (completes_lift hw hq rfl).then fun s₁ hw₁ hq₁ _ => completes_pure hw₁ hq₁ _⟩

/-- The block of `approve` returns for a motion that is executed. -/
theorem completes_approveBlock_executed {w : World} {t : Table} {p a c : AutonomyEvent} (hw : s.world = w)
    (hq : s.Quiet) (ht : w.view = t) (h : Executed t args.motionId p a c) (actor : String) :
    ∃ exit, Completes 0 (approveBlock config args actor) s exit w := by
  subst ht
  obtain ⟨s₁, h₁, hw₁, hq₁, hids₁⟩ := completes_query hw hq (eventsForMotion args.motionId)
  obtain ⟨m, s₂, h₂, hw₂, hq₂, hids₂⟩ := completes_returned hw₁ hq₁ h.proposal
  refine ⟨.returned m, s₂, ?_, hw₂, hq₂, by rw [hids₂, hids₁]; rfl⟩
  refine bind_ok.2 ⟨_, s₁, h₁, bind_ok.2 ⟨p, s₁, liftM_ok.2 ⟨requireSome_ok.2 h.proposal, rfl⟩, ?_⟩⟩
  simp only [h.rejection, h.approval, h.change, sameIdentity_iff]
  rw [if_pos h.identity]
  exact h₂

omit [Hashlib] in
/-- The block of `reject` returns for a motion that is rejected. -/
theorem completes_rejectBlock_rejected {w : World} {t : Table} {p r : AutonomyEvent} (hw : s.world = w)
    (hq : s.Quiet) (ht : w.view = t) (h : Rejected t args.motionId p r) (actor : String) :
    ∃ exit, Completes 0 (rejectBlock args actor) s exit w := by
  subst ht
  obtain ⟨s₁, h₁, hw₁, hq₁, hids₁⟩ := completes_query hw hq (eventsForMotion args.motionId)
  obtain ⟨m, s₂, h₂, hw₂, hq₂, hids₂⟩ := completes_returned hw₁ hq₁ h.proposal
  refine ⟨.returned m, s₂, ?_, hw₂, hq₂, by rw [hids₂, hids₁]; rfl⟩
  refine bind_ok.2 ⟨_, s₁, h₁, bind_ok.2 ⟨p, s₁, liftM_ok.2 ⟨requireSome_ok.2 h.proposal, rfl⟩, ?_⟩⟩
  simp only [h.rejection, h.approval, h.change, sameIdentity_iff]
  rw [if_pos h.identity]
  exact h₂

/-- A heard call returns where the motion is settled already. -/
theorem Settled.returns (h : Settled s.committed args.motionId op) (hheard : Heard config args s) :
    ∃ m s', op.run config args s = (.ok m, s') := by
  cases op with
  | approve =>
    obtain ⟨p, a, c, hexec⟩ := h.approve_found
    refine hheard.approve_returns (k := 0) fun actor s₀ hw₀ hq₀ _ => ?_
    obtain ⟨exit, hexit⟩ := completes_approveBlock_executed hw₀ hq₀ rfl hexec actor
    exact ⟨exit, _, hexit⟩
  | reject =>
    obtain ⟨p, r, hrej⟩ := h.reject_found
    refine hheard.reject_returns (k := 0) fun actor s₀ hw₀ hq₀ _ => ?_
    obtain ⟨exit, hexit⟩ := completes_rejectBlock_rejected hw₀ hq₀ rfl hrej actor
    exact ⟨exit, _, hexit⟩

omit [Hashlib] in
theorem Settled.not_pending {t : Table} {motionId : String} {p : AutonomyEvent}
    (h : Settled t motionId op) : ¬ Pending t motionId p := by
  intro hp
  obtain ⟨-, x, hx, hxm, hxk⟩ := h.mem
  exact hxk (hp.alone x hx hxm)

/-- A call that returns where the motion is settled has written nothing. -/
theorem Settled.again (h : Settled s.committed args.motionId op)
    (hrun : op.run config args s = (.ok m, s')) : s'.committed = s.committed ∧
      projectMotion (eventsForMotion args.motionId s.committed) = .ok m := by
  cases op with
  | approve =>
    obtain ⟨hm, ⟨-, -, -, -, hc⟩ | ⟨actor, p, a, c, happ, -⟩⟩ := approve_ok hrun
    · exact ⟨hc, hc ▸ hm⟩
    · exact absurd happ.pending h.not_pending
  | reject =>
    obtain ⟨hm, ⟨-, -, -, hc⟩ | ⟨actor, p, r, hrej, -⟩⟩ := reject_ok hrun
    · exact ⟨hc, hc ▸ hm⟩
    · exact absurd hrej.pending h.not_pending

/-- The other operation raises where the motion is settled. -/
theorem Settled.other_raises (h : Settled s.committed args.motionId op) :
    ∃ e s', op.other.run config args s = (.error e, s') := by
  rcases hrun : op.other.run config args s with ⟨e | m, s'⟩
  · exact ⟨e, s', rfl⟩
  · exfalso
    cases op with
    | approve =>
      obtain ⟨p, a, c, hexec⟩ := h.approve_found
      obtain ⟨-, ⟨q, r, hrej, -⟩ | ⟨actor, q, r, hrej, -⟩⟩ := reject_ok hrun
      · exact absurd (hexec.rejection.symm.trans hrej.rejection) nofun
      · exact h.not_pending hrej.pending
    | reject =>
      obtain ⟨p, r, hrej⟩ := h.reject_found
      obtain ⟨-, ⟨q, a, c, hexec, -⟩ | ⟨actor, q, a, c, happ, -⟩⟩ := approve_ok hrun
      · exact absurd (hexec.rejection.symm.trans hrej.rejection) nofun
      · exact h.not_pending happ.pending

theorem Settling.run_raisesClean (config : RuntimeConfig) (args : MotionArgs) :
    ∀ op : Settling, RaisesClean Session.committed (op.run config args)
  | .approve => approve_raisesClean config args
  | .reject => reject_raisesClean config args

/-- What a call that returns has found and done: the motion was settled and nothing is written, or
it was pending and is settled now. It returns the motion of the rows as they are then. -/
theorem Settling.run_ok (hu : UniqueRows s.committed) (h : op.run config args s = (.ok m, s')) :
    projectMotion (eventsForMotion args.motionId s'.committed) = .ok m ∧
      Settled s'.committed args.motionId op ∧
      (s'.committed = s.committed ∨ s'.committed ≠ s.committed ∧
        ∃ p, Pending s.committed args.motionId p) := by
  have hgrown : ∀ {written : Table}, written ≠ [] → s.committed ++ written ≠ s.committed :=
    fun hne heq => hne (List.append_right_eq_self.1 heq)
  cases op with
  | approve =>
    obtain ⟨hm, ⟨p, a, c, hexec, hc⟩ | ⟨actor, p, a, c, happ, hc⟩⟩ := approve_ok h
    · obtain ⟨hrows, hhistory⟩ := hexec.rows hu
      exact ⟨hm, by rw [hc]; exact .executed hrows hhistory, .inl hc⟩
    · refine ⟨hm, ?_, .inr ⟨by rw [hc]; exact hgrown (by simp), p, happ.pending⟩⟩
      obtain ⟨ida, ata, rfl⟩ := happ.approvedRow
      obtain ⟨idc, atc, rfl⟩ := happ.changedRow
      have hrows := @motionRows_append_self
        [approvalRow args.motionId p actor args.reason .motionApproved ida ata,
          approvalRow args.motionId p actor args.reason .positionChanged idc atc]
        args.motionId s.committed (by simp [approvalRow])
      rw [happ.pending.rows_of_unique hu] at hrows
      rw [hc]
      exact .executed (p := p) (.of_eq hrows) (.executed happ.pending.kind rfl rfl rfl rfl)
  | reject =>
    obtain ⟨hm, ⟨p, r, hrejected, hc⟩ | ⟨actor, p, r, hrej, hc⟩⟩ := reject_ok h
    · obtain ⟨hrows, hhistory⟩ := hrejected.rows hu
      exact ⟨hm, by rw [hc]; exact .rejected hrows hhistory, .inl hc⟩
    · refine ⟨hm, ?_, .inr ⟨by rw [hc]; exact hgrown (by simp), p, hrej.pending⟩⟩
      obtain ⟨id, createdAt, rfl⟩ := hrej.row
      have hrows := @motionRows_append_self
        [rejectionRow args.motionId p actor args.reason id createdAt]
        args.motionId s.committed (by simp [rejectionRow])
      rw [hrej.pending.rows_of_unique hu] at hrows
      rw [hc]
      exact .rejected (p := p) (.of_eq hrows) (.rejected hrej.pending.kind rfl rfl)

end

/-- **Settling is exact and stable.** Over every history, `approve` returns without writing exactly
when the motion is executed, `reject` when it is rejected; either writes only where the motion has
nothing but its proposal, and raises otherwise, with nothing written. Once one of them has succeeded,
at every later time it returns the same motion and writes nothing, and the other one raises. -/
theorem settling_exact_and_stable (op : Settling) (config : RuntimeConfig) (args : MotionArgs)
    (s : Session) (hu : UniqueRows s.committed) :
    (∀ m s', op.run config args s = (.ok m, s') → s'.committed = s.committed →
      Settled s.committed args.motionId op) ∧
    (Heard config args s → Settled s.committed args.motionId op →
      ∃ m s', op.run config args s = (.ok m, s') ∧ s'.committed = s.committed) ∧
    (∀ m s', op.run config args s = (.ok m, s') → s'.committed ≠ s.committed →
      ∃ p, motionRows args.motionId s.committed = [p] ∧ p.event = .motionProposed) ∧
    (¬ Settled s.committed args.motionId op →
      (¬ ∃ p, motionRows args.motionId s.committed = [p] ∧ p.event = .motionProposed) →
      ∃ e s', op.run config args s = (.error e, s')) ∧
    (∀ e s', op.run config args s = (.error e, s') → s'.committed = s.committed) ∧
    ∀ m s', op.run config args s = (.ok m, s') →
      ∀ (config' : RuntimeConfig) (args' : MotionArgs) (s₁ : Session),
        Later s'.committed s₁.committed → args'.motionId = args.motionId →
        (Heard config' args' s₁ → ∃ s₂, op.run config' args' s₁ = (.ok m, s₂) ∧
          s₂.committed = s₁.committed) ∧
        ∃ e s₂, op.other.run config' args' s₁ = (.error e, s₂) ∧ s₂.committed = s₁.committed := by
  have hsingle : ∀ {p : AutonomyEvent}, Pending s.committed args.motionId p →
      ∃ p, motionRows args.motionId s.committed = [p] ∧ p.event = .motionProposed :=
    fun hp => ⟨_, hp.rows_of_unique hu, hp.kind⟩
  refine ⟨?_, ?_, ?_, ?_, op.run_raisesClean config args s, ?_⟩
  · intro m s' h hc
    obtain ⟨-, hsettled, -⟩ := Settling.run_ok hu h
    rwa [hc] at hsettled
  · intro hheard hsettled
    obtain ⟨m, s', h⟩ := hsettled.returns hheard
    exact ⟨m, s', h, (hsettled.again h).1⟩
  · intro m s' h hne
    obtain ⟨-, -, hc | ⟨-, p, hp⟩⟩ := Settling.run_ok hu h
    · exact absurd hc hne
    · exact hsingle hp
  · intro hsettled hpending
    rcases h : op.run config args s with ⟨e | m, s'⟩
    · exact ⟨e, s', rfl⟩
    · obtain ⟨-, hafter, hc | ⟨-, p, hp⟩⟩ := Settling.run_ok hu h
      · exact absurd (hc ▸ hafter) hsettled
      · exact absurd (hsingle hp) hpending
  · intro m s' h config' args' s₁ hlater hid
    obtain ⟨hm, hsettled, -⟩ := Settling.run_ok hu h
    have hrows := hlater.rows hsettled
    have hsettled₁ : Settled s₁.committed args'.motionId op := by
      rw [hid]
      exact hsettled.congr hrows
    refine ⟨fun hheard => ?_, ?_⟩
    · obtain ⟨m₁, s₂, h₁⟩ := hsettled₁.returns hheard
      obtain ⟨hc, hm₁⟩ := hsettled₁.again h₁
      have hsame : eventsForMotion args.motionId s₁.committed =
          eventsForMotion args.motionId s'.committed :=
        congrArg (StampedLog.inOrder AutonomyEvent.stamp) hrows
      rw [hid, hsame, hm] at hm₁
      obtain rfl : m = m₁ := Except.ok.inj hm₁
      exact ⟨s₂, h₁, hc⟩
    · obtain ⟨e, s₂, h₁⟩ : ∃ e s₂, op.other.run config' args' s₁ = (.error e, s₂) :=
        hsettled₁.other_raises
      exact ⟨e, s₂, h₁, op.other.run_raisesClean config' args' s₁ e s₂ h₁⟩


/-- The store after a promotion and a demotion, with its declarations and its evidence lost. -/
def Scenario.bereft : Session :=
  ⟨⟨(after cycle).shared.table, none, false, .ok [], Disk.empty⟩, io 30⟩

omit [Hashlib] in
/-- The promotion is settled: it can still be approved again, and not be rejected. -/
theorem settling_exact_and_stable_sample :
    Settled Scenario.bereft.committed (Scenario.text 9 0) .approve ∧
      ∃ e s', @Settling.run Scenario.hashing Scenario.config ⟨Scenario.text 9 0, "no", none⟩ .reject
        Scenario.bereft = (.error e, s') := by
  have hu : UniqueRows Scenario.bereft.committed := by
    unfold UniqueRows
    decide +kernel
  have hexact := @settling_exact_and_stable Scenario.hashing .approve Scenario.config
    ⟨Scenario.text 9 0, "again", none⟩ Scenario.bereft hu
  have hok : (@Settling.run Scenario.hashing Scenario.config ⟨Scenario.text 9 0, "again", none⟩
      .approve Scenario.bereft).1.toOption.isSome = true := by decide +kernel
  have hc : (@Settling.run Scenario.hashing Scenario.config ⟨Scenario.text 9 0, "again", none⟩
      .approve Scenario.bereft).2.committed = Scenario.bereft.committed := by decide +kernel
  rcases hrun : @Settling.run Scenario.hashing Scenario.config ⟨Scenario.text 9 0, "again", none⟩
    .approve Scenario.bereft with ⟨e | m, s'⟩ <;> rw [hrun] at hok hc
  · cases hok
  · have hlater : @Later Scenario.hashing s'.committed Scenario.bereft.committed := by
      rw [hc]
      exact @Later.now Scenario.hashing _
    obtain ⟨e, s₂, h₂, -⟩ := (hexact.2.2.2.2.2 m s' hrun Scenario.config
      ⟨Scenario.text 9 0, "no", none⟩ Scenario.bereft hlater rfl).2
    exact ⟨hexact.1 m s' hrun hc, e, s₂, h₂⟩

end PaaRuntime
