import Mathlib.Data.List.Chain
import PaaRuntime.Histories

/-!
# The walk of authority

Where timestamps increase in commit order, the changes of a triple are a walk along the edges of its
declaration, from the initial position, and no motion is executed that was proposed before the last
change (`System.authority_walk`). The walk is not stored. It is carried by `Continues`, what a row
says of the rows before it: a proposal starts where its triple stands then, and a change repeats
a proposal since which its triple has not changed.
-/

namespace PaaRuntime

open Prog

/-- The declaration of a task at a version. -/
abbrev Content := String → Int → PaaTaskDeclaration

/-- A declaration is the one of its task and version. -/
def Consistent (content : Content) (d : PaaTaskDeclaration) : Prop := content d.task d.version = d

/-- The declaration that governs a triple. -/
def Triple.declaration (content : Content) (t : Triple) : PaaTaskDeclaration :=
  content t.task t.declarationVersion

/-- Where a triple stands after its changes, in commit order. -/
def positionAfter (content : Content) (t : Triple) (table : Table) : AutonomyPosition :=
  currentPosition (t.declaration content) (positionChanges t table).getLast?

/-- A row continues the walk of its triple. -/
def Continues (content : Content) (table : Table) (e : AutonomyEvent) : Prop :=
  match e.event with
  | .motionProposed => e.fromPosition = positionAfter content e.triple table ∧
      (e.triple.declaration content).Declares e.fromPosition e.toPosition
  | .positionChanged => ∃ t₁ p t₂, table = t₁ ++ p :: t₂ ∧ p.event = .motionProposed ∧
      p.motionId = e.motionId ∧ p.identity = e.identity ∧ positionChanges e.triple t₂ = []
  | _ => True

/-- The motion that `b` executes was proposed after `a`. -/
def ProposedAfter (table : Table) (a b : AutonomyEvent) : Prop :=
  ∃ t₁ t₂ p t₃, table = t₁ ++ a :: t₂ ++ p :: t₃ ∧ p.event = .motionProposed ∧
    p.motionId = b.motionId

/-- The changes of a triple are a walk: it starts at the initial position, each change starts where
the one before ended and executes a motion proposed since, and all are declared transitions. -/
structure ValidWalk (content : Content) (table : Table) (t : Triple) : Prop where
  first : ∀ a ∈ (positionChanges t table).head?,
    a.fromPosition = (t.declaration content).initialPosition
  steps : (positionChanges t table).IsChain fun a b =>
    b.fromPosition = a.toPosition ∧ ProposedAfter table a b
  declared : ∀ a ∈ positionChanges t table,
    (t.declaration content).Declares a.fromPosition a.toPosition
  /-- The position that a call would find in force is the end of the walk. -/
  inForce : ∀ d scope, Consistent content d → d.triple scope = t →
    positionIn table d scope = positionAfter content t table

section

variable {content : Content} {table t₁ t₂ : Table} {t : Triple} {e p : AutonomyEvent}

theorem mem_positionChanges :
    e ∈ positionChanges t table ↔ e ∈ table ∧ e.triple = t ∧ e.event = .positionChanged := by
  unfold positionChanges
  rw [List.mem_filter, decide_eq_true_eq]

theorem positionChanges_append (t : Triple) (t₁ t₂ : Table) :
    positionChanges t (t₁ ++ t₂) = positionChanges t t₁ ++ positionChanges t t₂ :=
  List.filter_append ..

theorem positionChanges_cons_of_ne (t : Triple) (t₂ : Table) (h : p.event ≠ .positionChanged) :
    positionChanges t (p :: t₂) = positionChanges t t₂ :=
  List.filter_cons_of_neg (by simp [h])

/-- The rows before a proposal hold the changes of a table without changes since. -/
theorem positionChanges_of_none_since (hk : p.event = .motionProposed)
    (h : positionChanges t t₂ = []) :
    positionChanges t (t₁ ++ p :: t₂) = positionChanges t t₁ := by
  rw [positionChanges_append, positionChanges_cons_of_ne t t₂ (by rw [hk]; decide), h,
    List.append_nil]

/-! ## From the rows to the walk -/

/-- A change starts where its triple stands, and is declared. -/
theorem Continues.change (hw : StampedLog.Grown (Continues content) table)
    (htable : table = t₁ ++ e :: t₂) (hk : e.event = .positionChanged) :
    e.fromPosition = positionAfter content e.triple t₁ ∧
      (e.triple.declaration content).Declares e.fromPosition e.toPosition := by
  have hc := hw t₁ e t₂ htable
  simp only [Continues, hk] at hc
  obtain ⟨u, p, v, rfl, hpk, -, hid, hnone⟩ := hc
  have hp := hw u p (v ++ e :: t₂) (by rw [htable, List.append_assoc, List.cons_append])
  simp only [Continues, hpk] at hp
  have htriple : p.triple = e.triple := AutonomyEvent.triple_eq_of_identity_eq hid
  have hfrom : p.fromPosition = e.fromPosition := congrArg Identity.fromPosition hid
  have hto : p.toPosition = e.toPosition := congrArg Identity.toPosition hid
  rw [htriple, hfrom, hto] at hp
  refine ⟨hp.1.trans ?_, hp.2⟩
  unfold positionAfter
  rw [positionChanges_of_none_since hpk hnone]

/-- The motion of a change was proposed after the change before it. -/
theorem Continues.proposedAfter (hw : StampedLog.Grown (Continues content) table)
    (htable : table = t₁ ++ e :: t₂) (hk : e.event = .positionChanged) {a : AutonomyEvent}
    (ha : (positionChanges e.triple t₁).getLast? = some a) : ProposedAfter table a e := by
  have hc := hw t₁ e t₂ htable
  simp only [Continues, hk] at hc
  obtain ⟨u, p, v, rfl, hpk, hpm, -, hnone⟩ := hc
  rw [positionChanges_of_none_since hpk hnone] at ha
  obtain ⟨hau, -⟩ := mem_positionChanges.1 (List.mem_of_getLast? ha)
  obtain ⟨u₁, u₂, rfl⟩ := List.append_of_mem hau
  refine ⟨u₁, u₂, p, v ++ e :: t₂, ?_, hpk, hpm⟩
  rw [htable, List.append_assoc, List.cons_append]

/-- A row among the changes of a triple, with the rows before and after it. -/
theorem positionChanges_split {q₁ q₂ : Table} (h : positionChanges t table = q₁ ++ e :: q₂) :
    ∃ t₁ t₂, table = t₁ ++ e :: t₂ ∧ positionChanges t t₁ = q₁ := by
  obtain ⟨u, v, rfl, hu, hv⟩ := List.filter_eq_append_iff.1 h
  obtain ⟨v₁, v₂, rfl, hnone, -, -⟩ := List.filter_eq_cons_iff.1 hv
  refine ⟨u ++ v₁, v₂, by rw [List.append_assoc], ?_⟩
  have hv₁ : positionChanges t v₁ = [] := List.filter_eq_nil_iff.2 hnone
  rw [positionChanges_append, hv₁, List.append_nil]
  exact hu

/-- Stamps increase where timestamps do. -/
theorem stamp_increasing (h : table.Pairwise (·.createdAt < ·.createdAt)) :
    table.Pairwise (·.stamp < ·.stamp) := h.imp AutonomyEvent.stamp_lt_of_createdAt_lt

/-- Where timestamps increase, the latest change of a triple is its last. -/
theorem latestPositionChanged_of_increasing (h : table.Pairwise (·.createdAt < ·.createdAt))
    (t : Triple) : latestPositionChanged t table = (positionChanges t table).getLast? :=
  StampedLog.latest_of_increasing ((stamp_increasing h).sublist List.filter_sublist)

theorem positionIn_of_increasing (h : table.Pairwise (·.createdAt < ·.createdAt))
    {d : PaaTaskDeclaration} (hd : Consistent content d) (scope : Option String) :
    positionIn table d scope = positionAfter content (d.triple scope) table := by
  unfold positionIn positionAfter Triple.declaration
  rw [latestPositionChanged_of_increasing h]
  exact congrArg (currentPosition · _) hd.symm

/-- Rows that continue the walks of their triples make them valid. -/
theorem validWalk_of_grown (hw : StampedLog.Grown (Continues content) table)
    (hclock : table.Pairwise (·.createdAt < ·.createdAt)) (t : Triple) :
    ValidWalk content table t where
  first a ha := by
    obtain ⟨q, hq⟩ := List.head?_eq_some_iff.1 ha
    have hsplit : positionChanges t table = [] ++ a :: q := hq
    obtain ⟨t₁, t₂, htable, hnone⟩ := positionChanges_split hsplit
    obtain ⟨-, rfl, hk⟩ := mem_positionChanges.1 (List.mem_of_mem_head? ha)
    rw [(Continues.change hw htable hk).1]
    unfold positionAfter
    rw [hnone]
    rfl
  steps := by
    rw [List.isChain_iff_forall_rel_of_append_cons_cons]
    intro a b q₁ q₂ h
    have hsplit : positionChanges t table = (q₁ ++ [a]) ++ b :: q₂ := by
      rw [h, List.append_assoc]
      rfl
    have hb : b ∈ positionChanges t table := by
      rw [hsplit]
      exact List.mem_append_right _ List.mem_cons_self
    obtain ⟨-, rfl, hk⟩ := mem_positionChanges.1 hb
    obtain ⟨t₁, t₂, htable, hbefore⟩ := positionChanges_split hsplit
    have hlast : (positionChanges b.triple t₁).getLast? = some a := by
      rw [hbefore, List.getLast?_concat]
    refine ⟨?_, Continues.proposedAfter hw htable hk hlast⟩
    rw [(Continues.change hw htable hk).1]
    unfold positionAfter
    rw [hlast]
    rfl
  declared a ha := by
    obtain ⟨hmem, rfl, hk⟩ := mem_positionChanges.1 ha
    obtain ⟨t₁, t₂, htable⟩ := List.append_of_mem hmem
    exact (Continues.change hw htable hk).2
  inForce d scope hd ht := by
    rw [← ht]
    exact positionIn_of_increasing hclock hd scope

end

/-! ## What a running demotion relies on -/

/-- A running demotion has the declaration in force; once its block is open, it has resolved the
position that its own declaration gives. -/
def Client.Current (config : RuntimeConfig) (sh : Shared) : Client → Prop
  | .demote args (.running (.loaded d _)) =>
    getPaaDeclaration config sh.directory args.task = .ok d
  | .demote args (.running (.storing d _ fromPosition _)) =>
    fromPosition = positionIn sh.table d args.scope
  | _ => True

namespace System

variable [Hashlib] {config : RuntimeConfig} {W : System} {D : PaaTaskDeclaration → Prop}

theorem current_demoteStep {args : DemoteArgs} {l : DemoteAt} {i : ℕ} {io : Io}
    {outcome : StepOutcome} {sh : Shared} (h : (Client.demote args (.running l)).Current config sh) :
    (Client.demote args (demoteStep config args i io outcome sh l).2).Current config
      (demoteStep config args i io outcome sh l).1 := by
  cases l with
  | called =>
    rcases sh.run_cases i io (demoteLoad config args) fun r =>
      (.running (.loaded r.1 r.2) : Stage DemoteAt Demotion) with ⟨r, s, hx, hr⟩ | ⟨e, s, -, hr⟩
    · simp only [demoteStep, hr]
      exact (demoteLoad_ok hx).1
    · simp only [demoteStep, hr]
      trivial
  | loaded d actor =>
    rcases sh.run_cases i io (demoteOpen config args d actor) fun r =>
      (.running (.storing d actor r.1 ⟨r.2, .mkdir⟩) : Stage DemoteAt Demotion) with
      ⟨r, s, hx, hr⟩ | ⟨e, s, -, hr⟩
    · simp only [demoteStep, hr]
      obtain ⟨-, -, hw, -, -, d', hd', -, hfrom⟩ := demoteOpen_ok hx
      obtain rfl : d = d' := Except.ok.inj (h.symm.trans hd')
      show r.1 = positionIn s.world.committed d args.scope
      rw [hfrom, hw]
      rfl
    · simp only [demoteStep, hr]
      trivial
  | storing d actor fromPosition call =>
    simp only [demoteStep]
    split
    · next ref sha left hpc =>
      rcases sh.run_cases i io (demoteClose args d actor fromPosition ref sha) fun m =>
        (.returned ⟨d, actor, call.data, m⟩ : Stage DemoteAt Demotion) with
        ⟨m, s, -, hr⟩ | ⟨e, s, -, hr⟩ <;> simp only [hr] <;> trivial
    · next e left hpc =>
      rcases sh.run_cases i io (rollbackOnError (throw e : Py Unit)) fun _ =>
        (.raised e : Stage DemoteAt Demotion) with
        ⟨_, s, -, hr⟩ | ⟨e', s, -, hr⟩ <;> simp only [hr] <;> trivial
    · unfold Shared.store
      dsimp only
      split
      · trivial
      · exact h

/-- While the directory is replaced only between calls, demotions stay current. -/
theorem current_next (hinv : Inv D W) (h : ∀ i, (W.thread i).Current config W.shared) {a : Action}
    (ha : QuietReplacement W a) (j : ℕ) :
    ((next config W a).thread j).Current config (next config W a).shared := by
  cases a with
  | replaceDirectory directory =>
    have hj := ha j
    simp only [next]
    generalize W.thread j = c at hj ⊢
    rcases c with _ | ⟨args, stage⟩ | ⟨args, stage⟩ | ⟨args, stage⟩ | ⟨args, stage⟩ | ⟨args, stage⟩
    case demote =>
      cases stage with
      | running l => exact absurd trivial hj
      | _ => trivial
    all_goals trivial
  | start i call =>
    have hshared : (next config W (.start i call)).shared = W.shared := by
      rcases ht : W.thread i <;> simp [next, Client.start, ht]
    rw [hshared]
    by_cases hji : j = i
    · subst hji
      have hj := h j
      simp only [next, Threads.act_thread_self]
      generalize W.thread j = c at hj ⊢
      cases c <;> cases call <;> exact hj
    · rw [next_thread_of_ne hji (.inl ⟨call, rfl⟩)]
      exact h j
  | advance i io outcome =>
    by_cases hji : j = i
    · subst hji
      have hj := h j
      simp only [next, Threads.act_thread_self, Threads.act_shared]
      generalize W.thread j = c at hj ⊢
      rcases c with _ | ⟨args, stage⟩ | ⟨args, stage⟩ | ⟨args, stage⟩ | ⟨args, stage⟩ |
        ⟨args, stage⟩
      case demote =>
        cases stage with
        | running l => exact current_demoteStep hj
        | _ => trivial
      all_goals first | trivial | cases stage <;> trivial
    · have hadv := Client.advance_spec config hinv.shared (hinv.own i) io outcome
      have hj := h j
      have hown := (hinv.own j).knows
      rw [next_thread_of_ne hji (.inr (.inl ⟨io, outcome, rfl⟩))]
      generalize W.thread j = c at hj hown ⊢
      unfold Client.Current at hj ⊢
      split at hj
      · show getPaaDeclaration config (Client.advance config i io outcome _ _).1.directory _ = _
        rw [hadv.directory]
        exact hj
      · show _ = positionIn (next config W (.advance i io outcome)).shared.table _ _
        rw [table_of_lock hinv hown.2.1 (Ne.symm hji)]
        exact hj
      · trivial
  | crash i =>
    have hshared : (next config W (.crash i)).shared.table = W.shared.table ∧
        (next config W (.crash i)).shared.directory = W.shared.directory := by
      rcases ht : W.thread i <;> simp [next, Client.crash, ht]
    have hcurrent : ∀ c : Client, c.Current config W.shared →
        c.Current config (next config W (.crash i)).shared := by
      intro c hc
      unfold Client.Current at hc ⊢
      rw [hshared.1, hshared.2]
      exact hc
    by_cases hji : j = i
    · subst hji
      simp only [next, Threads.act_thread_self]
      generalize W.thread j = c
      rcases c with _ | ⟨args, stage⟩ | ⟨args, stage⟩ | ⟨args, stage⟩ | ⟨args, stage⟩ |
        ⟨args, stage⟩
      case demote => cases stage <;> trivial
      all_goals trivial
    · rw [next_thread_of_ne hji (.inr (.inr rfl))]
      exact hcurrent _ (h j)

/-! ## Commits continue the walk -/

omit [Hashlib] in
/-- The changes before a proposal are the ones with a smaller stamp. -/
theorem positionChangedBefore_of_increasing {table t₁ t₂ : Table} {p : AutonomyEvent} (t : Triple)
    (htable : table = t₁ ++ p :: t₂) (hclock : table.Pairwise (·.createdAt < ·.createdAt)) :
    positionChangedBefore t p.stamp table = (positionChanges t t₁).getLast? := by
  have hstamp := stamp_increasing hclock
  have hfilter : (positionChanges t table).filter (·.stamp < p.stamp) = positionChanges t t₁ := by
    have hbefore : table.filter (·.stamp < p.stamp) = t₁ := by
      subst htable
      exact StampedLog.filter_lt_of_increasing hstamp
    conv_rhs => rw [← hbefore]
    unfold positionChanges
    rw [List.filter_filter, List.filter_filter]
    exact List.filter_congr fun _ _ => Bool.and_comm _ _
  unfold positionChangedBefore StampedLog.before
  rw [hfilter]
  rw [htable, List.pairwise_append] at hstamp
  exact StampedLog.latest_of_increasing (hstamp.1.sublist List.filter_sublist)

omit [Hashlib] in
/-- Where timestamps increase, the baseline of a proposal is still the latest change exactly when the
triple has not changed since the proposal. -/
theorem baseline_iff_none_since {table t₁ t₂ : Table} {p : AutonomyEvent} {t : Triple}
    (htable : table = t₁ ++ p :: t₂) (hk : p.event = .motionProposed)
    (hclock : table.Pairwise (·.createdAt < ·.createdAt)) (hfits : StampedLog.Grown Fits table) :
    (positionChangedBefore t p.stamp table).map (·.id) =
      (latestPositionChanged t table).map (·.id) ↔ positionChanges t t₂ = [] := by
  rw [positionChangedBefore_of_increasing t htable hclock,
    latestPositionChanged_of_increasing hclock, htable, positionChanges_append,
    positionChanges_cons_of_ne t t₂ (by rw [hk]; decide)]
  constructor
  · intro hbaseline
    rcases List.eq_nil_or_concat (positionChanges t t₂) with hnil | ⟨q, y, hq⟩
    · exact hnil
    · rw [hq, List.concat_eq_append, ← List.append_assoc, List.getLast?_concat] at hbaseline
      obtain ⟨x, hx, hid⟩ := Option.map_eq_some_iff.1 hbaseline
      obtain ⟨hx, -⟩ := mem_positionChanges.1 (List.mem_of_getLast? hx)
      have hy : y ∈ positionChanges t t₂ := by
        rw [hq, List.concat_eq_append]
        exact List.mem_append_right q (List.mem_singleton_self y)
      obtain ⟨hy, -⟩ := mem_positionChanges.1 hy
      have hids : table.Pairwise (·.id ≠ ·.id) :=
        (hfits.mono fun t e he b hb => (he.unique b hb).1).pairwise
      rw [htable, List.pairwise_append] at hids
      exact absurd hid (hids.2.2 x hx y (List.mem_cons_of_mem p hy))
  · intro hnone
    rw [hnone, List.append_nil]

theorem commits_continue {content : Content} (hinv : Inv (Consistent content) W)
    (hcurrent : ∀ i, (W.thread i).Current config W.shared)
    (hfits : StampedLog.Grown Fits W.shared.table) (hserves : ∀ i, (W.thread i).Serves)
    (hclock : W.shared.table.Pairwise (·.createdAt < ·.createdAt))
    (hwalk : StampedLog.Grown (Continues content) W.shared.table) {i : ℕ} {c' : Client}
    {written : List AutonomyEvent} (h : Commits config W.shared (W.thread i) c' written) :
    StampedLog.Grown (Continues content) (W.shared.table ++ written) := by
  have hknows := (hinv.own i).knows
  have hcurrent := hcurrent i
  have hserves := hserves i
  generalize W.thread i = c at h hknows hcurrent hserves
  cases h with
  | @propose args data p m e hlock hpro hm =>
    obtain ⟨id, createdAt, rfl⟩ := hpro.row
    have hready : p.Ready (Consistent content) args W.shared.disk data := hknows
    have hd : Consistent content p.declaration := hready.loaded.known
    refine StampedLog.grown_concat.2 ⟨hwalk, ?_, ?_⟩
    · exact positionIn_of_increasing hclock hd p.scope
    · show (content p.declaration.task p.declaration.version).Declares _ _
      rw [hd]
      exact hpro.declared
  | @approve args actor m p a c hlock happ =>
    obtain ⟨t₁, t₂, htable⟩ := List.append_of_mem happ.pending.mem
    have hnone := (baseline_iff_none_since htable happ.pending.kind hclock hfits).1
      happ.checks.baseline
    obtain ⟨ida, ata, rfl⟩ := happ.approvedRow
    obtain ⟨idc, atc, rfl⟩ := happ.changedRow
    rw [← List.singleton_append, ← List.append_assoc, StampedLog.grown_concat,
      StampedLog.grown_concat]
    refine ⟨⟨hwalk, trivial⟩, t₁, p,
      t₂ ++ [approvalRow args.motionId p actor args.reason .motionApproved ida ata], ?_,
      happ.pending.kind, happ.pending.motion, rfl, ?_⟩
    · rw [htable, List.append_assoc, List.cons_append]
    · rw [positionChanges_append]
      exact List.append_eq_nil_iff.2 ⟨hnone, positionChanges_cons_of_ne _ [] (by simp [approvalRow])⟩
  | @reject args actor m p r hlock hrej =>
    obtain ⟨id, createdAt, rfl⟩ := hrej.row
    exact StampedLog.grown_concat.2 ⟨hwalk, trivial⟩
  | @demote args d actor fromPosition call ref sha left m p a c hcall hdem =>
    obtain ⟨hloaded, -, hfrom, -⟩ := hknows
    have hd : Consistent content d := hloaded.known
    obtain ⟨idp, atp, rfl⟩ := hdem.proposedRow
    obtain ⟨ida, ata, rfl⟩ := hdem.approvedRow
    obtain ⟨idc, atc, rfl⟩ := hdem.changedRow
    have hstart : fromPosition = positionIn W.shared.table d args.scope := hcurrent
    rw [List.append_cons, List.append_cons, StampedLog.grown_concat, StampedLog.grown_concat,
      StampedLog.grown_concat]
    refine ⟨⟨⟨hwalk, ?_, ?_⟩, trivial⟩, W.shared.table,
      demotionRow args d actor m.motionId fromPosition ref sha .motionProposed idp atp,
      [demotionRow args d actor m.motionId fromPosition ref sha .motionApproved ida ata], ?_,
      rfl, rfl, rfl, positionChanges_cons_of_ne _ [] (by simp [demotionRow])⟩
    · exact hstart.trans (positionIn_of_increasing hclock hd args.scope)
    · show (content d.task d.version).Declares fromPosition d.demotion.toPosition
      rw [hd]
      exact .inr ⟨hfrom, rfl⟩
    · rw [List.append_assoc]
      rfl
  | importEvents => cases hserves

/-! ## Runs -/

/-- What may happen: no imports, no replacement of the directory during a call, and every directory
gives a task at a version one content. -/
def Governed (content : Content) (W : System) (a : Action) : Prop :=
  ServiceOnly W a ∧ QuietReplacement W a ∧ LoadsOnly (Consistent content) W a

/-- What holds along such runs. -/
structure Walking (content : Content) (config : RuntimeConfig) (W : System) : Prop where
  inv : Inv (Consistent content) W
  current : ∀ i, (W.thread i).Current config W.shared
  serves : ∀ i, (W.thread i).Serves
  fits : StampedLog.Grown Fits W.shared.table
  walk : W.shared.table.Pairwise (·.createdAt < ·.createdAt) →
    StampedLog.Grown (Continues content) W.shared.table

theorem walking_next {content : Content} (h : Walking content config W) {a : Action}
    (ha : Governed content W a) : Walking content config (next config W a) := by
  refine ⟨inv_next h.inv ha.2.2, current_next h.inv h.current ha.2.1, serves_next ha.1 h.serves,
    ?_, ?_⟩
  · rcases next_table h.inv a with hsame | ⟨i, io, outcome, written, -, htable, hcommits⟩
    · rw [hsame]
      exact h.fits
    · rw [htable]
      exact fitsAll_grown h.fits hcommits.fits
  · rcases next_table h.inv a with hsame | ⟨i, io, outcome, written, -, htable, hcommits⟩
    · rw [hsame]
      exact h.walk
    · rw [htable]
      intro hclock
      have hclock' := (List.pairwise_append.1 hclock).1
      exact commits_continue h.inv h.current h.fits h.serves hclock' (h.walk hclock') hcommits

/-- **Authority history is a valid, never-stale walk.** -/
theorem authority_walk {content : Content} {directory : Directory}
    (hdirectory : directory.All (Consistent content))
    (h : Run (next config) (Governed content) (init directory) W)
    (hclock : W.shared.table.Pairwise (·.createdAt < ·.createdAt)) (t : Triple) :
    ValidWalk content W.shared.table t := by
  have hinit : Walking content config (init directory) := by
    refine ⟨inv_init hdirectory, fun _ => trivial, fun _ => trivial, ?_, fun _ => ?_⟩ <;>
      exact StampedLog.grown_nil _
  have hwalking : Walking content config W :=
    h.invariant (P := Walking content config) (fun _ _ ha hW => walking_next hW ha) hinit
  exact validWalk_of_grown (hwalking.walk hclock) hclock t

end System

theorem Scenario.governed_cycle :
    ∀ a ∈ cycle, ∀ W, System.Governed (fun _ _ => declaration) W a := by
  intro a ha W
  refine ⟨serviceOnly_cycle a ha W, ?_⟩
  rcases mem_cycle ha with ⟨i, call, rfl, -⟩ | ⟨i, k, rfl⟩ <;> exact ⟨trivial, trivial⟩

theorem System.authority_walk_cycle :
    (positionChanges (Scenario.declaration.triple none)
      (Scenario.after Scenario.cycle).shared.table).length = 2 ∧
    ValidWalk (fun _ _ => Scenario.declaration) (Scenario.after Scenario.cycle).shared.table
      (Scenario.declaration.triple none) := by
  refine ⟨by decide +kernel, ?_⟩
  refine @System.authority_walk Scenario.hashing Scenario.config _ _ _ ?_
    (Run.foldl _ _ Scenario.governed_cycle) (by decide +kernel) _
  rintro ds ⟨⟩ d hd
  rw [List.mem_singleton.1 hd]
  rfl

end PaaRuntime
