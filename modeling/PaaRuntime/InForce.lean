import PaaRuntime.Demotions
import PaaRuntime.Operable
import PaaRuntime.TimeOrder

/-!
# The position in force

The position in force follows the change of a triple with the greatest `(created_at, id)`, which
need not be the one committed last. `System.takes_effect_iff`: a change that the service commits takes
effect, until its triple changes again, exactly when no change it does not exceed ends elsewhere.
`System.approves_in_force_iff`: a fresh approval starts at the position in force exactly when its
proposal was recorded from there and no change committed since has been stamped in between.
-/

namespace PaaRuntime

open Prog

/-- Resolving a task at a scope gives a position, whoever asks, and does where nothing fails. -/
def System.Resolves (config : RuntimeConfig) (W : System) (task : String) (scope : Option String)
    (position : AutonomyPosition) : Prop :=
  ∀ j io, (∀ r s, resolveCurrentPosition config task scope (W.shared.session j io) = (.ok r, s) →
      r.currentPosition = position) ∧
    ((W.shared.session j io).Quiet → ∃ r s,
      resolveCurrentPosition config task scope (W.shared.session j io) = (.ok r, s))

namespace System

variable {config : RuntimeConfig} {W : System} {d : PaaTaskDeclaration} {scope : Option String}
  {position : AutonomyPosition} {task : String}

theorem resolves_iff (hd : getPaaDeclaration config W.shared.directory task = .ok d)
    (hv : IsInt64 d.version) :
    W.Resolves config task scope position ↔
      d.Permits scope ∧ positionIn W.shared.table d scope = position := by
  constructor
  · intro h
    obtain ⟨hposition, hreturns⟩ := h 0 (Scenario.io 0)
    obtain ⟨r, s, hr⟩ := hreturns ⟨fun _ => rfl, fun _ => rfl⟩
    obtain ⟨-, d', hd', hpermits, -, rfl⟩ := resolveCurrentPosition_ok hr
    obtain rfl : d = d' := Except.ok.inj (hd.symm.trans hd')
    have hr' := hposition _ _ hr
    rw [Shared.session_view] at hr'
    exact ⟨hpermits, hr'⟩
  · rintro ⟨hpermits, rfl⟩ j io
    refine ⟨fun r s hr => ?_, fun hq => ?_⟩
    · obtain ⟨-, d', hd', -, -, rfl⟩ := resolveCurrentPosition_ok hr
      obtain rfl : d = d' := Except.ok.inj (hd.symm.trans hd')
      rw [Shared.session_view]
      rfl
    · obtain ⟨s, hr, -⟩ := completes_resolveCurrentPosition rfl hq hd hpermits hv
      exact ⟨_, s, hr⟩

/-! ## A change takes effect -/

theorem getPaaDeclaration_single (config : RuntimeConfig) (d : PaaTaskDeclaration) :
    getPaaDeclaration config (.ok [d]) d.task = .ok d := by
  unfold getPaaDeclaration
  simp

variable [Hashlib]

/-- Without imports, a step commits at most one change of a position. -/
theorem positionChanges_of_commits {sh : Shared} {x x' : Client} {written : List AutonomyEvent}
    (h : Commits config sh x x' written) (hserves : x.Serves) {c : AutonomyEvent} (hc : c ∈ written)
    (hk : c.event = .positionChanged) : positionChanges c.triple written = [c] := by
  cases h with
  | propose hlock hpro hm =>
    obtain ⟨id, createdAt, rfl⟩ := hpro.row
    rw [List.mem_singleton.1 hc] at hk
    cases hk
  | @approve args actor m p a c' hlock happ =>
    obtain ⟨ida, ata, rfl⟩ := happ.approvedRow
    obtain ⟨idc, atc, rfl⟩ := happ.changedRow
    rcases List.mem_cons.1 hc with rfl | hc
    · cases hk
    · rw [List.mem_singleton.1 hc, positionChanges_cons_of_ne _ _ (by simp [approvalRow])]
      exact List.filter_eq_self.2 (by simp [approvalRow])
  | reject hlock hrej =>
    obtain ⟨id, createdAt, rfl⟩ := hrej.row
    rw [List.mem_singleton.1 hc] at hk
    cases hk
  | @demote args d actor fromPosition call ref sha left m p a c' hcall hdem =>
    obtain ⟨idp, atp, rfl⟩ := hdem.proposedRow
    obtain ⟨ida, ata, rfl⟩ := hdem.approvedRow
    obtain ⟨idc, atc, rfl⟩ := hdem.changedRow
    rcases List.mem_cons.1 hc with rfl | hc
    · cases hk
    · rcases List.mem_cons.1 hc with rfl | hc
      · cases hk
      · rw [List.mem_singleton.1 hc, positionChanges_cons_of_ne _ _ (by simp [demotionRow]),
          positionChanges_cons_of_ne _ _ (by simp [demotionRow])]
        exact List.filter_eq_self.2 (by simp [demotionRow])
  | importEvents => cases hserves

/-- A change takes effect: while its triple does not change again, resolving under the declaration
gives where it ended. -/
def TakesEffect (config : RuntimeConfig) (W : System) (c : AutonomyEvent) (d : PaaTaskDeclaration)
    (scope : Option String) : Prop :=
  ∀ W', Run (next config) ServiceOnly W W' →
    positionChanges c.triple W'.shared.table = positionChanges c.triple W.shared.table →
    getPaaDeclaration config W'.shared.directory d.task = .ok d →
      W'.Resolves config d.task scope c.toPosition

omit [Hashlib] in
/-- The position after a change is where it ended, unless a change that exceeds it ended elsewhere. -/
theorem positionIn_concat {t t' : Table} {c : AutonomyEvent} (htriple : d.triple scope = c.triple)
    (h : positionChanges c.triple t' = positionChanges c.triple t ++ [c]) :
    positionIn t' d scope = c.toPosition ↔ ∀ e, latestPositionChanged c.triple t = some e →
      e.stamp < c.stamp ∨ e.toPosition = c.toPosition := by
  unfold positionIn latestPositionChanged
  rw [htriple, h, StampedLog.latest_concat]
  rcases StampedLog.latest AutonomyEvent.stamp (positionChanges c.triple t) with _ | e
  · simp [currentPosition]
  · by_cases hlt : e.stamp < c.stamp
    · simp [currentPosition, hlt]
    · simp [currentPosition, hlt]

/-- In every history that the service alone writes, a change that it commits takes effect under a
declaration of its task and version exactly when the declaration permits the scope and the change
exceeds, by its clock reading and then its id, every earlier change of the triple, or the greatest of
these ends at the same position. -/
theorem takes_effect_iff {directory : Directory}
    (h : Run (next config) ServiceOnly (init directory) W) {a : Action} {written : List AutonomyEvent}
    (htable : (next config W a).shared.table = W.shared.table ++ written) {c : AutonomyEvent}
    (hc : c ∈ written) (hk : c.event = .positionChanged) (htriple : d.triple scope = c.triple) :
    TakesEffect config (next config W a) c d scope ↔
      d.Permits scope ∧ ∀ e, latestPositionChanged c.triple W.shared.table = some e →
        e.stamp < c.stamp ∨ e.toPosition = c.toPosition := by
  have hinv := inv_reach h
  have hserves := (written_run (inv_init fun _ _ _ _ => trivial) (written_init directory) h).serves
  rcases next_table hinv a with hsame | ⟨i, io, outcome, written', -, htable', hcommits⟩
  · rw [htable, List.append_right_eq_self] at hsame
    rw [hsame] at hc
    exact absurd hc List.not_mem_nil
  obtain rfl : written = written' := List.append_cancel_left (htable.symm.trans htable')
  have hchanges : positionChanges c.triple (next config W a).shared.table =
      positionChanges c.triple W.shared.table ++ [c] := by
    rw [htable, positionChanges_append, positionChanges_of_commits hcommits (hserves i) hc hk]
  have hv : IsInt64 d.version := by
    have hfits := fitsAll_grown (fits_reach h) hcommits.fits
    obtain ⟨t₁, t₂, ht⟩ := List.append_of_mem (List.mem_append_right W.shared.table hc)
    rw [show d.version = c.declarationVersion from congrArg Triple.declarationVersion htriple]
    exact (hfits t₁ c t₂ ht).version
  rw [← positionIn_concat htriple hchanges]
  constructor
  · intro heffect
    have hd := getPaaDeclaration_single config d
    have hnow := heffect (next config (next config W a) (.replaceDirectory (.ok [d])))
      (.single _ trivial) rfl hd
    exact (resolves_iff (W := next config (next config W a) (.replaceDirectory (.ok [d]))) hd hv).1
      hnow
  · rintro ⟨hpermits, hposition⟩ W' - hsame hd
    refine (resolves_iff hd hv).2 ⟨hpermits, ?_⟩
    rw [← hposition]
    unfold positionIn latestPositionChanged
    rw [htriple, hsame]

end System

/-! A promotion is committed, and then a demotion whose clock may have stepped back. -/

namespace Scenario

/-- The clock stands still at `2026-03-01T10:00:00`, some microseconds on. -/
def ioAt (n microseconds : ℕ) : Io :=
  { io n with
    clock := fun _ => "2026-03-01T10:00:00.0000" ++ text (microseconds / 10) (microseconds % 10) ++ "Z" }

/-- Client `i` calls, and goes on for a number of parts, while the clock stands still. -/
def callsAt (microseconds i : ℕ) (call : Call) (n parts : ℕ) : List Action :=
  .start i call :: (List.range parts).map fun k =>
    .advance i (ioAt (n + k) microseconds) (.completes "tmp")

def proposing : List Action := callsAt 20 0 (.propose ⟨"t", none, "hotl", "file", none, none⟩) 0 11

/-- The promotion is executed at microsecond 20; the demotion has all but its last part behind it. -/
def demoting (microseconds : ℕ) : List Action :=
  proposing ++ callsAt 20 1 (.approve ⟨text 9 0, "fine", none⟩) 11 2 ++
    callsAt microseconds 2 (.demote ⟨"t", none, "incident", none, []⟩) 13 8

/-- The demotion commits. -/
def demotes (microseconds : ℕ) : Action := .advance 2 (ioAt 21 microseconds) (.completes "tmp")

/-- The system after the demotion. -/
def committed (microseconds : ℕ) : System :=
  @System.next hashing config (after (demoting microseconds)) (demotes microseconds)

theorem committed_table {microseconds : ℕ} (h : microseconds = 19 ∨ microseconds = 21) :
    (committed microseconds).shared.table =
      (after (demoting microseconds)).shared.table ++ (committed microseconds).shared.table.drop 3 := by
  rcases h with rfl | rfl <;> decide +kernel

theorem committed_declaration : getPaaDeclaration config (committed 19).shared.directory "t" =
    .ok declaration := by decide +kernel

theorem serviceOnly_callsAt {microseconds i n parts : ℕ} {call : Call}
    (hcall : ∀ events, call ≠ .importEvents events) :
    ∀ a ∈ callsAt microseconds i call n parts, ∀ W, System.ServiceOnly W a := by
  intro a ha W
  rcases List.mem_cons.1 ha with rfl | ha
  · cases call <;> first | trivial | exact absurd rfl (hcall _)
  · obtain ⟨k, -, rfl⟩ := List.mem_map.1 ha
    trivial

theorem run_demoting (microseconds : ℕ) :
    Run (@System.next hashing config) System.ServiceOnly (System.init (.ok [declaration]))
      (after (demoting microseconds)) := by
  refine Run.foldl _ _ fun a ha => ?_
  rcases List.mem_append.1 ha with ha | ha
  · rcases List.mem_append.1 ha with ha | ha
    · exact serviceOnly_callsAt (by exact nofun) a ha
    · exact serviceOnly_callsAt (by exact nofun) a ha
  · exact serviceOnly_callsAt (by exact nofun) a ha

end Scenario

/-- A demotion that has returned is masked by the promotion before it. -/
theorem System.takes_effect_fails : ∃ (W : System) (a : Action) (written : List AutonomyEvent)
    (c : AutonomyEvent),
    Run (@next Scenario.hashing Scenario.config) ServiceOnly (init (.ok [Scenario.declaration])) W ∧
      ((@next Scenario.hashing Scenario.config W a).thread 2).HasDemoted ∧
      (@next Scenario.hashing Scenario.config W a).shared.table = W.shared.table ++ written ∧
      c ∈ written ∧ c.event = .positionChanged ∧ Scenario.declaration.triple none = c.triple ∧
      Scenario.declaration.Permits none ∧
      ¬@TakesEffect Scenario.hashing Scenario.config (@next Scenario.hashing Scenario.config W a) c
        Scenario.declaration none := by
  obtain ⟨c, hc, hk, htriple, hto⟩ : ∃ c ∈ (Scenario.committed 19).shared.table.drop 3,
      c.event = .positionChanged ∧ Scenario.declaration.triple none = c.triple ∧
        c.toPosition = .hitl := by decide +kernel
  refine ⟨_, Scenario.demotes 19, _, c, Scenario.run_demoting 19, by decide +kernel,
    Scenario.committed_table (.inl rfl), hc, hk, htriple, rfl, fun heffect => ?_⟩
  have hresolves := heffect _ (.refl _) rfl Scenario.committed_declaration
  have hposition := ((resolves_iff Scenario.committed_declaration (by decide)).1 hresolves).2
  rw [hto] at hposition
  exact absurd hposition (by decide +kernel)

/-- With the clock at microsecond 21 the demotion takes effect. -/
theorem System.takes_effect_sample : ∃ c ∈ (Scenario.committed 21).shared.table.drop 3,
    c.toPosition = .hitl ∧ @TakesEffect Scenario.hashing Scenario.config (Scenario.committed 21) c
      Scenario.declaration none := by
  obtain ⟨c, hc, hk, htriple, hto⟩ : ∃ c ∈ (Scenario.committed 21).shared.table.drop 3,
      c.event = .positionChanged ∧ Scenario.declaration.triple none = c.triple ∧
        c.toPosition = .hitl := by decide +kernel
  refine ⟨c, hc, hto, ?_⟩
  have hiff := @takes_effect_iff Scenario.config _ Scenario.declaration none Scenario.hashing _
    (Scenario.run_demoting 21) (Scenario.demotes 21) _ (Scenario.committed_table (.inr rfl)) c hc hk
    htriple
  refine hiff.2 ⟨rfl, fun e he => .inl ?_⟩
  have hlt : ∀ e ∈ (Scenario.after (Scenario.demoting 21)).shared.table,
      ∀ c ∈ (Scenario.committed 21).shared.table.drop 3, e.stamp < c.stamp := by decide +kernel
  exact hlt e (mem_positionChanges.1 (StampedLog.latest_mem he)).1 c hc

/-! ## An approval starts at the position in force -/

/-- The changes of a proposal's triple committed since it, but stamped before it. -/
def backdated (p : AutonomyEvent) (t₂ : Table) : Table :=
  (positionChanges p.triple t₂).filter (·.stamp < p.stamp)

/-- A proposal between the rows of a table starts at the position that a declaration gives. -/
structure RecordedInForce (d : PaaTaskDeclaration) (t₁ : Table) (p : AutonomyEvent) (t₂ : Table) :
    Prop where
  permits : d.Permits p.scope
  /-- It was recorded from where its triple stood, unless a backdated change exceeds those before. -/
  source : (∀ c ∈ backdated p t₂, ∃ e ∈ positionChanges p.triple t₁, c.stamp < e.stamp) →
    p.fromPosition = positionIn t₁ d p.scope
  /-- A backdated change that no change exceeds ends where the proposal starts. -/
  overtaken : ∀ c ∈ backdated p t₂, (∀ e ∈ positionChanges p.triple (t₁ ++ p :: t₂),
    e.stamp ≤ c.stamp) → c.toPosition = p.fromPosition

section

variable {d : PaaTaskDeclaration} {t₁ t₂ : Table} {p : AutonomyEvent}

/-- Where the latest change is stamped before the proposal, so are all that were committed since. -/
theorem backdated_eq_of_baseline (hids : ((t₁ ++ p :: t₂).map (·.id)).Nodup)
    (hbaseline : (positionChangedBefore p.triple p.stamp (t₁ ++ p :: t₂)).map (·.id) =
      (latestPositionChanged p.triple (t₁ ++ p :: t₂)).map (·.id)) :
    backdated p t₂ = positionChanges p.triple t₂ := by
  have hnone := (ids_agree_iff hids p.triple p.stamp).1 hbaseline.symm
  refine List.filter_eq_self.2 fun c hc => ?_
  obtain ⟨hct, htriple, hk⟩ := mem_positionChanges.1 hc
  have hmem : c ∈ t₁ ++ p :: t₂ := List.mem_append_right t₁ (List.mem_cons_of_mem p hct)
  rw [decide_eq_true_eq, ← not_le]
  exact fun hle => hnone ⟨c, hmem, htriple, hk, hle⟩

theorem recordedInForce_iff (hids : ((t₁ ++ p :: t₂).map (·.id)).Nodup)
    (hk : p.event = .motionProposed) (htriple : d.triple p.scope = p.triple)
    (hbaseline : (positionChangedBefore p.triple p.stamp (t₁ ++ p :: t₂)).map (·.id) =
      (latestPositionChanged p.triple (t₁ ++ p :: t₂)).map (·.id)) :
    RecordedInForce d t₁ p t₂ ↔
      d.Permits p.scope ∧ positionIn (t₁ ++ p :: t₂) d p.scope = p.fromPosition := by
  have hbackdated := backdated_eq_of_baseline hids hbaseline
  have hsplit : positionChanges p.triple (t₁ ++ p :: t₂) =
      positionChanges p.triple t₁ ++ positionChanges p.triple t₂ := by
    rw [positionChanges_append, positionChanges_cons_of_ne _ _ (by rw [hk]; decide)]
  have hdistinct := (distinct_of_ids hids).filter
    fun e => e.triple = p.triple ∧ e.event = .positionChanged
  by_cases hexceeded : ∀ c ∈ positionChanges p.triple t₂,
      ∃ e ∈ positionChanges p.triple t₁, c.stamp < e.stamp
  · -- the latest change was committed before the proposal
    have hposition : positionIn (t₁ ++ p :: t₂) d p.scope = positionIn t₁ d p.scope := by
      unfold positionIn latestPositionChanged
      rw [htriple, hsplit, StampedLog.latest_append_of_exceeded hexceeded]
    rw [hposition]
    constructor
    · intro h
      exact ⟨h.permits, (h.source (by rwa [hbackdated])).symm⟩
    · rintro ⟨hpermits, hfrom⟩
      refine ⟨hpermits, fun _ => hfrom.symm, fun c hc hgreatest => ?_⟩
      obtain ⟨e, he, hlt⟩ := hexceeded c (hbackdated ▸ hc)
      have hle := hgreatest e (by rw [hsplit]; exact List.mem_append_left _ he)
      exact absurd hlt hle.not_gt
  · -- it was committed since
    push Not at hexceeded
    obtain ⟨c, hc, hexceeds⟩ := hexceeded
    rcases hlatest : latestPositionChanged p.triple (t₁ ++ p :: t₂) with _ | m
    · rw [latestPositionChanged, StampedLog.latest_eq_none, hsplit, List.append_eq_nil_iff] at hlatest
      rw [hlatest.2] at hc
      exact absurd hc List.not_mem_nil
    have hgreatest : m ∈ positionChanges p.triple (t₁ ++ p :: t₂) ∧
        ∀ e ∈ positionChanges p.triple (t₁ ++ p :: t₂), e.stamp ≤ m.stamp :=
      (StampedLog.latest_eq_some_iff hdistinct).1 hlatest
    have hunique : ∀ e ∈ positionChanges p.triple (t₁ ++ p :: t₂), m.stamp ≤ e.stamp → e = m :=
      fun e he hle => hdistinct he hgreatest.1 (le_antisymm (hgreatest.2 e he) hle)
    have hsince : ∀ e ∈ positionChanges p.triple t₂,
        e ∈ positionChanges p.triple (t₁ ++ p :: t₂) := by
      intro e he
      rw [hsplit]
      exact List.mem_append_right _ he
    have hm : m ∈ positionChanges p.triple t₂ := by
      have hmem := hgreatest.1
      rw [hsplit] at hmem
      rcases List.mem_append.1 hmem with hmem | hmem
      · rwa [← hunique c (hsince c hc) (hexceeds m hmem)]
      · exact hmem
    have hposition : positionIn (t₁ ++ p :: t₂) d p.scope = m.toPosition := by
      unfold positionIn
      rw [htriple, hlatest]
      rfl
    rw [hposition]
    constructor
    · intro h
      exact ⟨h.permits, h.overtaken m (by rwa [hbackdated]) hgreatest.2⟩
    · rintro ⟨hpermits, hto⟩
      refine ⟨hpermits, fun hexceeded => ?_, fun e he hmax => ?_⟩
      · obtain ⟨e, he, hlt⟩ := hexceeded c (by rwa [hbackdated])
        exact absurd hlt (hexceeds e he).not_gt
      · rw [hbackdated] at he
        rw [hunique e (hsince e he) (hmax m hgreatest.1)]
        exact hto

end

namespace System

variable [Hashlib] {config : RuntimeConfig} {W : System}

/-- In every history of service calls and imports, over whatever declarations, a step that commits a
fresh approval starts at the position in force exactly when its proposal was recorded there. -/
theorem approves_in_force_iff {directory : Directory} (h : Reach config (init directory) W) {i : ℕ}
    {args : MotionArgs} {stage : Stage MotionAt Motion} (hi : W.thread i = .approve args stage)
    {io : Io} {outcome : StepOutcome}
    (hfresh : (next config W (.advance i io outcome)).shared.table ≠ W.shared.table) :
    ∃ t₁ p t₂ d, W.shared.table = t₁ ++ p :: t₂ ∧
      p.motionId = args.motionId ∧ p.event = .motionProposed ∧
      getPaaDeclaration config W.shared.directory p.task = .ok d ∧
      (W.Resolves config p.task p.scope p.fromPosition ↔ RecordedInForce d t₁ p t₂) := by
  rcases next_table (inv_reach h) (.advance i io outcome) with
    hsame | ⟨j, io', outcome', written, hij, -, hcommits⟩
  · exact absurd hsame hfresh
  cases hij
  rw [hi] at hcommits
  generalize (next config W (.advance i io outcome)).thread i = x at hcommits
  have hids := ids_of_grown (fits_reach h)
  cases hcommits with
  | @approve _ actor m p a c hlock happ =>
    obtain ⟨t₁, t₂, ht⟩ := List.append_of_mem happ.pending.mem
    obtain ⟨d, hd, hversion, -⟩ := happ.checks.declared
    have htriple : d.triple p.scope = p.triple := by
      unfold PaaTaskDeclaration.triple AutonomyEvent.triple
      rw [(getPaaDeclaration_ok hd).1, hversion]
    have hbaseline := happ.checks.baseline
    refine ⟨t₁, p, t₂, d, ht, happ.pending.motion, happ.pending.kind, hd, ?_⟩
    rw [ht] at hids hbaseline
    rw [resolves_iff hd (hversion ▸ happ.checks.version), ht]
    exact (recordedInForce_iff (List.pairwise_map.2 hids) happ.pending.kind htriple hbaseline).symm

end System

/-! A promotion is proposed, an older promotion may be imported, and the proposal is approved. -/

namespace Scenario

/-- The events of a promotion that was executed at microsecond 10. -/
def archive : List AutonomyEvent :=
  [("a", AutonomyEventType.motionProposed), ("b", .motionApproved), ("c", .positionChanged)].map
    fun e => { changeAt e.1 "2026-03-01T10:00:00.000010Z" .hotl with
      motionId := "m", event := e.2, fromPosition := .hitl }

/-- The promotion is proposed at microsecond 20; of its approval the block is still to come. -/
def approving (events : List AutonomyEvent) : List Action :=
  proposing ++
    [.start 3 (.importEvents (events.map fun e => .ok e.toJsonDict)),
      .advance 3 (io 12) (.completes "tmp")] ++
    callsAt 30 1 (.approve ⟨text 9 0, "fine", none⟩) 13 1

/-- The approval commits. -/
def approves (events : List AutonomyEvent) : System :=
  @System.next hashing config (after (approving events)) (.advance 1 (ioAt 14 30) (.completes "tmp"))

theorem approving_declaration : getPaaDeclaration config
    (after (approving archive)).shared.directory "t" = .ok declaration := by decide +kernel

theorem approving_client : (after (approving [])).thread 1 =
    .approve ⟨text 9 0, "fine", none⟩ (.running (.ready "operator")) := by rfl

theorem approves_table : ∃ a c, (approves archive).shared.table =
      (after (approving archive)).shared.table ++ [a, c] ∧
    (a.motionId = text 9 0 ∧ a.event = .motionApproved) ∧
      c.motionId = text 9 0 ∧ c.event = .positionChanged := by
  obtain ⟨a, c, hdrop⟩ := List.length_eq_two.1
    (show ((approves archive).shared.table.drop 4).length = 2 by decide +kernel)
  refine ⟨a, c, ?_, ?_⟩
  · rw [← hdrop]
    decide +kernel
  · have hrows : ∀ x ∈ (approves archive).shared.table.drop 4, x.motionId = text 9 0 := by
      decide +kernel
    have hkinds : ((approves archive).shared.table.drop 4).map (·.event) =
        [.motionApproved, .positionChanged] := by decide +kernel
    rw [hdrop] at hrows hkinds
    simp only [List.map_cons, List.map_nil, List.cons.injEq, and_true] at hkinds
    exact ⟨⟨hrows a List.mem_cons_self, hkinds.1⟩,
      hrows c (List.mem_cons_of_mem a (List.mem_singleton_self c)), hkinds.2⟩

end Scenario

/-- A proposal from `hitl` to `hotl` is approved while `hotl` is in force: the older promotion has been
imported since. -/
theorem System.approves_in_force_fails :
    @Reach Scenario.hashing Scenario.config (init (.ok [Scenario.declaration]))
        (Scenario.after (Scenario.approving Scenario.archive)) ∧
      (∀ e ∈ (Scenario.after (Scenario.approving Scenario.archive)).shared.table,
        (DateTime.instant? (Text.lit e.createdAt)).isSome) ∧
      ∃ p ∈ (Scenario.after (Scenario.approving Scenario.archive)).shared.table, ∃ a c,
        p.event = .motionProposed ∧
        (Scenario.approves Scenario.archive).shared.table =
          (Scenario.after (Scenario.approving Scenario.archive)).shared.table ++ [a, c] ∧
        (a.motionId = p.motionId ∧ a.event = .motionApproved) ∧
        (c.motionId = p.motionId ∧ c.event = .positionChanged) ∧
        ¬(Scenario.after (Scenario.approving Scenario.archive)).Resolves Scenario.config p.task p.scope
          p.fromPosition := by
  refine ⟨Scenario.reach_after _, by decide +kernel, ?_⟩
  obtain ⟨p, hp, hk, htask, hscope, hfrom, hm⟩ :
      ∃ p ∈ (Scenario.after (Scenario.approving Scenario.archive)).shared.table,
        p.event = .motionProposed ∧ p.task = "t" ∧ p.scope = none ∧ p.fromPosition = .hitl ∧
          p.motionId = Scenario.text 9 0 := by decide +kernel
  obtain ⟨a, c, hac, ha, hc⟩ := Scenario.approves_table
  refine ⟨p, hp, a, c, hk, hac, by rwa [hm], by rwa [hm], fun hresolves => ?_⟩
  rw [htask, hscope, hfrom] at hresolves
  have hposition := ((resolves_iff Scenario.approving_declaration (by decide)).1 hresolves).2
  exact absurd hposition (by decide +kernel)

/-- Without the import it is approved where it starts. -/
theorem System.approves_in_force_sample :
    ∃ p ∈ (Scenario.after (Scenario.approving [])).shared.table,
      (Scenario.after (Scenario.approving [])).Resolves Scenario.config p.task p.scope
        p.fromPosition := by
  obtain ⟨t₁, p, t₂, d, ht, -, -, hd, hiff⟩ := @approves_in_force_iff Scenario.hashing
    Scenario.config _ _ (Scenario.reach_after (Scenario.approving [])) 1 _ _ Scenario.approving_client
    (Scenario.ioAt 14 30) (.completes "tmp") (by decide +kernel)
  obtain ⟨q, hq⟩ := List.length_eq_one_iff.1
    (show (Scenario.after (Scenario.approving [])).shared.table.length = 1 by decide +kernel)
  have hrow : ∀ e ∈ (Scenario.after (Scenario.approving [])).shared.table,
      getPaaDeclaration Scenario.config
          (Scenario.after (Scenario.approving [])).shared.directory e.task =
        .ok Scenario.declaration ∧ e.scope = none ∧ e.fromPosition = .hitl := by decide +kernel
  have hp : p ∈ (Scenario.after (Scenario.approving [])).shared.table := by
    rw [ht]
    exact List.mem_append_right t₁ List.mem_cons_self
  obtain ⟨hd', hscope, hfrom⟩ := hrow p hp
  obtain rfl : Scenario.declaration = d := Except.ok.inj (hd'.symm.trans hd)
  rw [hq] at ht
  obtain ⟨rfl, -, rfl⟩ := (List.append_eq_singleton_iff.1 ht.symm).resolve_right nofun
  refine ⟨p, hp, hiff.2 ⟨?_, fun _ => ?_, fun c hc => absurd hc List.not_mem_nil⟩⟩
  · rw [hscope]
    rfl
  · rw [hfrom, hscope]
    rfl

end PaaRuntime
