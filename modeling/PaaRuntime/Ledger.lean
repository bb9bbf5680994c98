import PaaRuntime.Lib.Tickets
import PaaRuntime.Walk

/-!
# The ledger of authority

What the service is for, in the terms of `Cells`: each triple is a cell that holds its position, each
motion a ticket to move one. The rows of a table, in commit order, spell out a `ledger`; where the
service alone has written and timestamps increase, every action of the system takes the ledger
along its steps, or leaves it (`System.refines_ledger`). So each epoch of a triple is ended by one
motion (`System.one_motion_per_epoch`), and a motion that was overtaken is never executed
(`System.overtaken_never_executed`).
-/

namespace PaaRuntime

/-- The transitions of the declaration that governs a triple. -/
def Edge (content : Content) (t : Triple) (fromPosition toPosition : AutonomyPosition) : Prop :=
  (t.declaration content).Declares fromPosition toPosition

/-- What the rows of a motion say has become of it. -/
def fateOf (rows : Table) : Fate :=
  if ∃ e ∈ rows, e.event = .positionChanged then .used
  else if ∃ e ∈ rows, e.event = .motionRejected then .refused
  else .pending

/-- The row is the proposal of the motion. -/
def IsProposal (m : String) (e : AutonomyEvent) : Prop :=
  e.motionId = m ∧ e.event = .motionProposed

instance decidableIsProposal (m : String) : DecidablePred (IsProposal m) := fun _ => inferInstanceAs (Decidable (_ ∧ _))

/-- The rows that were committed before the proposal of a motion. -/
def rowsBefore (m : String) (table : Table) : Table := table.takeWhile fun e => ¬IsProposal m e

/-- The ticket of a motion: its proposal moves the triple, in the epoch it was committed in. -/
def ticketOf (table : Table) (m : String) : Option (Ticket Triple AutonomyPosition) :=
  (table.find? fun e => IsProposal m e).map fun p =>
    ⟨p.triple, p.fromPosition, p.toPosition, (positionChanges p.triple (rowsBefore m table)).length,
      fateOf (motionRows m table)⟩

/-- The ledger that the rows of a table spell out. -/
def ledger (content : Content) (table : Table) : Cells Triple AutonomyPosition String where
  value t := positionAfter content t table
  epoch t := (positionChanges t table).length
  ticket := ticketOf table

section

variable {content : Content} {table t₁ t₂ rows : Table} {e p a : AutonomyEvent} {m : String}
  {t : Triple} {k : Ticket Triple AutonomyPosition}

/-! ## One row -/

/-- The rows before a row of a motion, and what it is to them. -/
theorem MotionHistory.split {rows' : Table} (h : MotionHistory p (rows ++ e :: rows')) :
    rows = [] ∧ e = p ∨ rows = [p] ∧ e.event = .motionRejected ∨
      rows = [p] ∧ e.event = .motionApproved ∨
      ∃ a, rows = [p, a] ∧ a.event = .motionApproved ∧ e.event = .positionChanged := by
  generalize hall : rows ++ e :: rows' = all at h
  cases h with
  | proposed hp =>
    rcases rows with _ | ⟨x, _ | ⟨y, rows⟩⟩ <;> simp_all
  | rejected hp hr hri =>
    rcases rows with _ | ⟨x, _ | ⟨y, rows⟩⟩ <;> simp_all
  | executed hp ha hc hai hci =>
    rcases rows with _ | ⟨x, _ | ⟨y, _ | ⟨z, rows⟩⟩⟩ <;> simp_all

theorem fateOf_proposed (hk : p.event = .motionProposed) : fateOf [p] = .pending := by
  simp [fateOf, hk]

/-- The rows before a proposal that is the first of its motion. -/
theorem rowsBefore_eq (hp : IsProposal m p) (hfirst : ∀ e ∈ t₁, ¬IsProposal m e) :
    rowsBefore m (t₁ ++ p :: t₂) = t₁ := by
  unfold rowsBefore
  rw [List.takeWhile_append_of_pos fun e he => decide_eq_true (hfirst e he),
    List.takeWhile_cons_of_neg (by simpa using hp), List.append_nil]

theorem find?_proposal (hp : IsProposal m p) (hfirst : ∀ e ∈ t₁, ¬IsProposal m e) :
    (t₁ ++ p :: t₂).find? (fun e => IsProposal m e) = some p := by
  rw [List.find?_append, List.find?_cons_of_pos (by simpa using hp)]
  have hnone : t₁.find? (fun e => decide (IsProposal m e)) = none :=
    List.find?_eq_none.2 fun e he => by simpa using hfirst e he
  rw [hnone]
  rfl

/-- The ticket of a motion, from its first proposal. -/
theorem ticketOf_eq (hp : IsProposal m p) (hfirst : ∀ e ∈ t₁, ¬IsProposal m e) :
    ticketOf (t₁ ++ p :: t₂) m = some ⟨p.triple, p.fromPosition, p.toPosition,
      (positionChanges p.triple t₁).length, fateOf (motionRows m (t₁ ++ p :: t₂))⟩ := by
  unfold ticketOf
  rw [find?_proposal hp hfirst, rowsBefore_eq hp hfirst]
  rfl

theorem ticketOf_eq_none : ticketOf table m = none ↔ ∀ e ∈ table, ¬IsProposal m e := by
  unfold ticketOf
  rw [Option.map_eq_none_iff, List.find?_eq_none]
  simp only [decide_eq_true_eq]

/-- A motion that has a ticket was proposed. -/
theorem ticketOf_eq_some (h : ticketOf table m = some k) :
    ∃ t₁ p t₂, table = t₁ ++ p :: t₂ ∧ IsProposal m p ∧ (∀ e ∈ t₁, ¬IsProposal m e) ∧
      k = ⟨p.triple, p.fromPosition, p.toPosition, (positionChanges p.triple t₁).length,
        fateOf (motionRows m table)⟩ := by
  obtain ⟨p, hfind, -⟩ := Option.map_eq_some_iff.1 h
  obtain ⟨hp, t₁, t₂, rfl, hfirst⟩ := List.find?_eq_some_iff_append.1 hfind
  have hp : IsProposal m p := of_decide_eq_true hp
  have hfirst : ∀ e ∈ t₁, ¬IsProposal m e := fun e he => by simpa using hfirst e he
  rw [ticketOf_eq hp hfirst] at h
  exact ⟨t₁, p, t₂, rfl, hp, hfirst, (Option.some.inj h).symm⟩

/-- Rows after its proposal change a ticket only in its fate. -/
theorem ticketOf_append (h : ticketOf table m = some k) (t₂ : Table) :
    ticketOf (table ++ t₂) m = some { k with fate := fateOf (motionRows m (table ++ t₂)) } := by
  obtain ⟨t₁, p, t₃, rfl, hp, hfirst, rfl⟩ := ticketOf_eq_some h
  rw [List.append_assoc, List.cons_append]
  exact ticketOf_eq hp hfirst

/-- A row of one motion leaves the tickets of the others. -/
theorem ticketOf_concat_of_ne (hm : m ≠ e.motionId) :
    ticketOf (table ++ [e]) m = ticketOf table m := by
  have hrows : motionRows m (table ++ [e]) = motionRows m table := by
    have hnone : motionRows m [e] = [] := by
      refine motionRows_eq_nil fun r hr hrm => ?_
      rw [List.mem_singleton.1 hr] at hrm
      exact hm hrm.symm
    rw [motionRows_append, hnone, List.append_nil]
  rcases h : ticketOf table m with _ | k
  · rw [ticketOf_eq_none] at h ⊢
    intro r hr hprop
    rcases List.mem_append.1 hr with hr | hr
    · exact h r hr hprop
    · rw [List.mem_singleton.1 hr] at hprop
      exact hm hprop.1.symm
  · obtain ⟨t₁, p, t₃, rfl, hp, hfirst, rfl⟩ := ticketOf_eq_some h
    rw [ticketOf_append h, hrows]

theorem positionAfter_concat_of_ne (hk : e.event ≠ .positionChanged) :
    positionAfter content t (table ++ [e]) = positionAfter content t table := by
  unfold positionAfter
  rw [positionChanges_append, positionChanges_cons_of_ne t [] hk]
  exact congrArg _ (congrArg _ (List.append_nil _))

theorem length_positionChanges_concat_of_ne (hk : e.event ≠ .positionChanged) :
    (positionChanges t (table ++ [e])).length = (positionChanges t table).length := by
  rw [positionChanges_append, positionChanges_cons_of_ne t [] hk]
  exact congrArg _ (List.append_nil _)

/-- A row that changes no position changes the ticket of its motion alone. -/
theorem ledger_concat (hk : e.event ≠ .positionChanged)
    (h : ticketOf (table ++ [e]) e.motionId = some k) :
    ledger content (table ++ [e]) = (ledger content table).setTicket e.motionId k := by
  ext1
  · funext t
    exact positionAfter_concat_of_ne hk
  · funext t
    exact length_positionChanges_concat_of_ne hk
  · funext m
    show ticketOf (table ++ [e]) m = Function.update (ticketOf table) e.motionId (some k) m
    by_cases hm : m = e.motionId
    · subst hm
      rw [h, Function.update_self]
    · rw [ticketOf_concat_of_ne hm, Function.update_of_ne hm]

/-- A row that changes a position also changes the cell of its triple. -/
theorem ledger_concat_change (hk : e.event = .positionChanged)
    (h : ticketOf (table ++ [e]) e.motionId = some k) :
    ledger content (table ++ [e]) =
      ((ledger content table).setTicket e.motionId k).change e.triple e.toPosition := by
  have hself : positionChanges e.triple [e] = [e] := by simp [positionChanges, hk]
  have hother : ∀ t, t ≠ e.triple → positionChanges t [e] = [] := fun t ht => by
    simp [positionChanges, ht.symm]
  ext1
  · funext t
    show positionAfter content t (table ++ [e]) =
      Function.update (fun t => positionAfter content t table) e.triple e.toPosition t
    unfold positionAfter
    rw [positionChanges_append]
    by_cases ht : t = e.triple
    · subst ht
      rw [hself, List.getLast?_concat, Function.update_self]
      rfl
    · rw [hother t ht, List.append_nil, Function.update_of_ne ht]
  · funext t
    show (positionChanges t (table ++ [e])).length = Function.update
      (fun t => (positionChanges t table).length) e.triple
        ((positionChanges e.triple table).length + 1) t
    rw [positionChanges_append, List.length_append]
    by_cases ht : t = e.triple
    · subst ht
      rw [hself, Function.update_self, List.length_singleton]
    · rw [hother t ht, Function.update_of_ne ht, List.length_nil, Nat.add_zero]
  · funext m
    show ticketOf (table ++ [e]) m = Function.update (ticketOf table) e.motionId (some k) m
    by_cases hm : m = e.motionId
    · subst hm
      rw [h, Function.update_self]
    · rw [ticketOf_concat_of_ne hm, Function.update_of_ne hm]

/-! ## Rows along the steps -/

theorem isProposal_of_history {all : Table} (h : MotionHistory p all)
    (hrows : motionRows m table = p :: rows) : p ∈ table ∧ IsProposal m p := by
  have hmem : p ∈ motionRows m table := by
    rw [hrows]
    exact List.mem_cons_self
  obtain ⟨ht, hm⟩ := mem_motionRows.1 hmem
  exact ⟨ht, hm, h.kind⟩

/-- A motion whose proposal is among the rows has a ticket. -/
theorem exists_ticketOf (hp : p ∈ table) (hm : IsProposal m p) : ∃ k, ticketOf table m = some k :=
  Option.ne_none_iff_exists'.1 fun hnone => ticketOf_eq_none.1 hnone p hp hm

/-- Each row of a table that follows the motion rules and the walk is a step of the ledger, or none. -/
theorem steps_concat (hfollows : Follows table) (hwalk : StampedLog.Grown (Continues content) table)
    (htable : table = t₁ ++ e :: t₂) :
    Cells.Steps (Edge content) (ledger content t₁) (ledger content (t₁ ++ [e])) := by
  have hcontinues := hwalk t₁ e t₂ htable
  obtain ⟨p, hp⟩ := hfollows e (by rw [htable]; exact List.mem_append_right _ List.mem_cons_self)
  have hself : motionRows e.motionId [e] = [e] := by simp [motionRows]
  have hrows : motionRows e.motionId (t₁ ++ [e]) = motionRows e.motionId t₁ ++ [e] := by
    rw [motionRows_append, hself]
  have hall : motionRows e.motionId table =
      motionRows e.motionId t₁ ++ e :: motionRows e.motionId t₂ := by
    rw [htable, List.append_cons, motionRows_append, hrows, List.append_assoc]
    rfl
  rw [hall] at hp
  rcases hp.split with ⟨hnil, rfl⟩ | ⟨hone, hk⟩ | ⟨hone, hk⟩ | ⟨a, htwo, ha, hk⟩
  · -- a proposal issues a ticket
    have hk := hp.kind
    simp only [Continues, hk] at hcontinues
    have hfirst : ∀ r ∈ t₁, ¬IsProposal e.motionId r := fun r hr hprop => by
      have hmem := mem_motionRows.2 ⟨hr, hprop.1⟩
      rw [hnil] at hmem
      cases hmem
    have hticket := @ticketOf_eq t₁ [] e _ ⟨rfl, hk⟩ hfirst
    rw [hrows, hnil, List.nil_append, fateOf_proposed hk, hcontinues.1] at hticket
    rw [ledger_concat (by rw [hk]; decide) hticket]
    refine .single (.issue e.motionId e.triple e.toPosition (ticketOf_eq_none.2 hfirst) ?_)
    rw [hcontinues.1] at hcontinues
    exact hcontinues.2
  · -- a rejection refuses it
    obtain ⟨hmem, hprop⟩ := isProposal_of_history hp hone
    obtain ⟨k, hticket⟩ := exists_ticketOf hmem hprop
    have hfate : k.fate = .pending := by
      obtain ⟨_, _, _, -, -, -, rfl⟩ := ticketOf_eq_some hticket
      rw [hone, fateOf_proposed hp.kind]
    have hafter := ticketOf_append hticket [e]
    have hrefused : fateOf (motionRows e.motionId (t₁ ++ [e])) = .refused := by
      rw [hrows, hone]
      simp [fateOf, hk, hp.kind]
    rw [hrefused] at hafter
    rw [ledger_concat (by rw [hk]; decide) hafter]
    exact .single (.refuse e.motionId k hticket hfate)
  · -- an approval does nothing yet
    obtain ⟨hmem, hprop⟩ := isProposal_of_history hp hone
    obtain ⟨k, hticket⟩ := exists_ticketOf hmem hprop
    have hfate : fateOf (motionRows e.motionId (t₁ ++ [e])) = k.fate := by
      obtain ⟨_, _, _, -, -, -, rfl⟩ := ticketOf_eq_some hticket
      rw [hrows, hone, fateOf_proposed hp.kind]
      simp [fateOf, hk, hp.kind]
    have hafter := ticketOf_append hticket [e]
    rw [hfate] at hafter
    rw [ledger_concat (by rw [hk]; decide) hafter]
    show Cells.Steps _ _ ((ledger content t₁).setTicket e.motionId k)
    rw [Cells.setTicket_eq_self hticket]
  · -- a change uses it
    simp only [Continues, hk] at hcontinues
    obtain ⟨u, q, v, rfl, hqk, hqm, hid, hnone⟩ := hcontinues
    have hqrows : motionRows e.motionId (u ++ q :: v) =
        motionRows e.motionId u ++ q :: motionRows e.motionId v := by
      rw [motionRows_append]
      simp [motionRows, hqm]
    have hfirst : ∀ r ∈ u, ¬IsProposal e.motionId r := by
      intro r hr hprop
      have hmem : r ∈ motionRows e.motionId u := mem_motionRows.2 ⟨hr, hprop.1⟩
      rw [htwo] at hqrows
      generalize motionRows e.motionId u = l at hqrows hmem
      rcases l with _ | ⟨x, _ | ⟨y, l⟩⟩
      · cases hmem
      · simp only [List.cons_append, List.nil_append, List.cons.injEq] at hqrows
        rw [hqrows.2.1, hqk] at ha
        cases ha
      · simp at hqrows
    have hticket := @ticketOf_eq u v q _ ⟨hqm, hqk⟩ hfirst
    have htriple : q.triple = e.triple := AutonomyEvent.triple_eq_of_identity_eq hid
    have hto : q.toPosition = e.toPosition := congrArg Identity.toPosition hid
    have hpending : fateOf (motionRows e.motionId (u ++ q :: v)) = .pending := by
      rw [htwo]
      simp [fateOf, hp.kind, ha]
    rw [hpending, htriple] at hticket
    have hafter := ticketOf_append hticket [e]
    have hused : fateOf (motionRows e.motionId ((u ++ q :: v) ++ [e])) = .used := by
      rw [hrows]
      simp [fateOf, hk]
    rw [hused] at hafter
    rw [ledger_concat_change hk hafter, ← hto]
    refine .single (.use e.motionId _ hticket rfl ?_)
    show _ = (positionChanges e.triple (u ++ q :: v)).length
    rw [positionChanges_of_none_since hqk hnone]

/-- So are the rows of a commit, or of many. -/
theorem steps_append (hfollows : Follows table) (hwalk : StampedLog.Grown (Continues content) table)
    (htable : table = t₁ ++ t₂) :
    Cells.Steps (Edge content) (ledger content t₁) (ledger content table) := by
  suffices h : ∀ l r, table = t₁ ++ l ++ r →
      Cells.Steps (Edge content) (ledger content t₁) (ledger content (t₁ ++ l)) by
    rw [htable]
    exact h t₂ [] (by rw [htable, List.append_nil])
  intro l
  induction l using List.reverseRecOn with
  | nil =>
    intro r _
    rw [List.append_nil]
  | append_singleton l e ih =>
    intro r hr
    have hsplit : table = t₁ ++ l ++ e :: r := by
      rw [hr, List.append_assoc, List.append_assoc, List.append_assoc]
      rfl
    rw [← List.append_assoc]
    exact (ih (e :: r) hsplit).trans (steps_concat hfollows hwalk hsplit)

end

/-! ## The system -/

/-- The service goes by the ledger: a resolution gives the position of the cell, and the staleness
test of `approve` passes where the ticket of the motion is of the epoch its cell is in. -/
structure GoesBy (content : Content) (table : Table) : Prop where
  resolves : ∀ d scope, Consistent content d →
    positionIn table d scope = (ledger content table).value (d.triple scope)
  approves : ∀ p, Pending table p.motionId p →
    ((positionChangedBefore p.triple p.stamp table).map (·.id) =
        (latestPositionChanged p.triple table).map (·.id) ↔
      ∃ k, (ledger content table).ticket p.motionId = some k ∧ k.fate = .pending ∧
        k.epoch = (ledger content table).epoch k.cell)

theorem goesBy_of_increasing {content : Content} {table : Table} (hfollows : Follows table)
    (hclock : table.Pairwise (·.createdAt < ·.createdAt)) (hfits : StampedLog.Grown Fits table) :
    GoesBy content table where
  resolves d scope hd := positionIn_of_increasing hclock hd scope
  approves p hp := by
    have hrows := hp.rows hfollows
    obtain ⟨t₁, t₂, htable⟩ := List.append_of_mem hp.mem
    have hfirst : ∀ r ∈ t₁, ¬IsProposal p.motionId r := by
      intro r hr hprop
      have hlen : (motionRows p.motionId t₁ ++ motionRows p.motionId (p :: t₂)).length = 1 := by
        rw [← motionRows_append, ← htable, hrows]
        rfl
      have hr' := List.length_pos_of_mem (mem_motionRows.2 ⟨hr, hprop.1⟩)
      have hp' : p ∈ motionRows p.motionId (p :: t₂) := mem_motionRows.2 ⟨List.mem_cons_self, rfl⟩
      have hp'' := List.length_pos_of_mem hp'
      rw [List.length_append] at hlen
      omega
    have hticket := @ticketOf_eq t₁ t₂ p _ ⟨rfl, hp.kind⟩ hfirst
    rw [← htable, hrows, fateOf_proposed hp.kind] at hticket
    rw [System.baseline_iff_none_since htable hp.kind hclock hfits]
    have hepoch : (positionChanges p.triple t₁).length = (positionChanges p.triple table).length ↔
        positionChanges p.triple t₂ = [] := by
      rw [htable, positionChanges_append, positionChanges_cons_of_ne _ _ (by rw [hp.kind]; decide),
        List.length_append, ← List.length_eq_zero_iff]
      omega
    rw [← hepoch]
    constructor
    · exact fun h => ⟨_, hticket, rfl, h⟩
    · rintro ⟨k, hk, -, h⟩
      obtain rfl := Option.some.inj (hticket.symm.trans hk)
      exact h

namespace System

variable [Hashlib] {config : RuntimeConfig} {W W' : System} {content : Content}
  {directory : Directory}

/-- What holds of a state that governed clients reach. -/
theorem walking_reach (hdirectory : directory.All (Consistent content))
    (h : Run (next config) (Governed content) (init directory) W) :
    Walking content config W ∧ Written W := by
  refine ⟨h.invariant (P := Walking content config) (fun _ _ ha hW => walking_next hW ha) ?_,
    written_run (inv_init fun _ _ _ _ => trivial) (written_init directory)
      (h.mono fun _ _ ha => ha.1)⟩
  refine ⟨inv_init hdirectory, fun _ => trivial, fun _ => trivial, ?_, fun _ => ?_⟩ <;>
    exact StampedLog.grown_nil _

/-- The ledgers of two states of a run are connected by its steps. -/
theorem steps_run (hdirectory : directory.All (Consistent content))
    (h : Run (next config) (Governed content) (init directory) W)
    (h' : Run (next config) (Governed content) W W')
    (hclock : W'.shared.table.Pairwise (·.createdAt < ·.createdAt)) :
    Cells.Steps (Edge content) (ledger content W.shared.table) (ledger content W'.shared.table) := by
  obtain ⟨hwalking, hwritten⟩ := walking_reach hdirectory (h.trans h')
  obtain ⟨more, hmore⟩ := run_table (fun _ _ ha => ha.2.2) (walking_reach hdirectory h).1.inv h'
  exact steps_append hwritten.follows (hwalking.walk hclock) hmore

/-- **The service refines the ledger.** Between any two states of a run the ledger moves along its
steps, from no tickets and the initial positions, and the service goes by it. -/
theorem refines_ledger (hdirectory : directory.All (Consistent content))
    (h : Run (next config) (Governed content) (init directory) W)
    (h' : Run (next config) (Governed content) W W')
    (hclock : W'.shared.table.Pairwise (·.createdAt < ·.createdAt)) :
    Cells.Steps (Edge content) (Cells.init fun t => (t.declaration content).initialPosition)
        (ledger content W.shared.table) ∧
      Cells.Steps (Edge content) (ledger content W.shared.table)
        (ledger content W'.shared.table) ∧
      GoesBy content W'.shared.table := by
  obtain ⟨hwalking, hwritten⟩ := walking_reach hdirectory (h.trans h')
  obtain ⟨more, hmore⟩ := run_table (fun _ _ ha => ha.2.2) (walking_reach hdirectory h).1.inv h'
  have hclock₀ : W.shared.table.Pairwise (·.createdAt < ·.createdAt) := by
    rw [hmore] at hclock
    exact (List.pairwise_append.1 hclock).1
  exact ⟨steps_run hdirectory (.refl _) h hclock₀, steps_run hdirectory h h' hclock,
    goesBy_of_increasing hwritten.follows hclock hwalking.fits⟩

/-! ## What the ledger says of motions -/

/-- A motion was proposed for a triple after exactly `n` changes of it, and was executed. -/
def ExecutedIn (table : Table) (t : Triple) (n : ℕ) (m : String) : Prop :=
  ∃ t₁ p t₂, table = t₁ ++ p :: t₂ ∧ IsProposal m p ∧ p.triple = t ∧
    (positionChanges t t₁).length = n ∧ ∃ c ∈ table, c.motionId = m ∧ c.event = .positionChanged

omit [Hashlib] in
theorem fateOf_used {table : Table} {m : String} :
    fateOf (motionRows m table) = .used ↔
      ∃ c ∈ table, c.motionId = m ∧ c.event = .positionChanged := by
  have hiff : (∃ c ∈ motionRows m table, c.event = .positionChanged) ↔
      ∃ c ∈ table, c.motionId = m ∧ c.event = .positionChanged := by
    simp only [mem_motionRows, and_assoc]
  rw [← hiff]
  unfold fateOf
  split_ifs with hchanged hrejected
  · exact iff_of_true rfl hchanged
  · exact iff_of_false (by exact nofun) hchanged
  · exact iff_of_false (by exact nofun) hchanged

omit [Hashlib] in
/-- A proposal is the first of its motion. -/
theorem first_of_follows {table t₁ t₂ : Table} {p : AutonomyEvent} {m : String}
    (hfollows : Follows table) (htable : table = t₁ ++ p :: t₂) (hp : IsProposal m p) :
    ∀ r ∈ t₁, ¬IsProposal m r := by
  intro r hr hprop
  obtain ⟨q, hq⟩ := hfollows p (by rw [htable]; exact List.mem_append_right _ List.mem_cons_self)
  have hrows : motionRows p.motionId table =
      motionRows p.motionId t₁ ++ p :: motionRows p.motionId t₂ := by
    rw [htable, motionRows_append]
    simp [motionRows]
  have hmem := mem_motionRows.2 ⟨hr, hprop.1.trans hp.1.symm⟩
  rw [hrows] at hq
  rcases hq.split with ⟨hnil, -⟩ | ⟨-, hk⟩ | ⟨-, hk⟩ | ⟨a, -, -, hk⟩
  · rw [hnil] at hmem
    cases hmem
  all_goals
    rw [hp.2] at hk
    cases hk

omit [Hashlib] in
theorem executedIn_iff {table : Table} (hfollows : Follows table) {t : Triple} {n : ℕ} {m : String} :
    ExecutedIn table t n m ↔
      ∃ k, ticketOf table m = some k ∧ k.fate = .used ∧ k.cell = t ∧ k.epoch = n := by
  constructor
  · rintro ⟨t₁, p, t₂, rfl, hp, rfl, rfl, hchanged⟩
    exact ⟨_, ticketOf_eq hp (first_of_follows hfollows rfl hp), fateOf_used.2 hchanged, rfl, rfl⟩
  · rintro ⟨k, hk, hfate, rfl, rfl⟩
    obtain ⟨t₁, p, t₂, htable, hp, -, rfl⟩ := ticketOf_eq_some hk
    exact ⟨t₁, p, t₂, htable, hp, rfl, rfl, fateOf_used.1 hfate⟩

/-- **A motion that was overtaken is never executed**: not if its triple has changed since it was
proposed, whoever approves it and whenever. -/
theorem overtaken_never_executed (hdirectory : directory.All (Consistent content))
    (h : Run (next config) (Governed content) (init directory) W)
    (h' : Run (next config) (Governed content) W W')
    (hclock : W'.shared.table.Pairwise (·.createdAt < ·.createdAt)) {p : AutonomyEvent}
    {t₁ t₂ : Table} (htable : W.shared.table = t₁ ++ p :: t₂) (hk : p.event = .motionProposed)
    (hovertaken : ∃ c ∈ t₂, c.triple = p.triple ∧ c.event = .positionChanged)
    (hunexecuted : ∀ c ∈ W.shared.table, c.motionId = p.motionId → c.event ≠ .positionChanged) :
    ∀ c ∈ W'.shared.table, c.motionId = p.motionId → c.event ≠ .positionChanged := by
  have hsteps := steps_run hdirectory h h' hclock
  have hfollows := (walking_reach hdirectory h).2.follows
  have hticket := @ticketOf_eq t₁ t₂ p _ ⟨rfl, hk⟩ (first_of_follows hfollows htable ⟨rfl, hk⟩)
  rw [← htable] at hticket
  have hunused : fateOf (motionRows p.motionId W.shared.table) ≠ .used := by
    rw [Ne, fateOf_used]
    rintro ⟨c, hc, hm, hchanged⟩
    exact hunexecuted c hc hm hchanged
  have hstale : (positionChanges p.triple t₁).length <
      (positionChanges p.triple W.shared.table).length := by
    obtain ⟨c, hc, htriple, hchanged⟩ := hovertaken
    have hpos := List.length_pos_of_mem (mem_positionChanges.2 ⟨hc, htriple, hchanged⟩)
    rw [htable, positionChanges_append, positionChanges_cons_of_ne _ _ (by rw [hk]; decide),
      List.length_append]
    omega
  obtain ⟨fate, hafter, hfate⟩ := Cells.stale_forever hsteps hticket hunused hstale
  intro c hc hm hchanged
  obtain ⟨_, _, _, -, -, -, heq⟩ := ticketOf_eq_some hafter
  have hsame : fate = fateOf (motionRows p.motionId W'.shared.table) := congrArg Ticket.fate heq
  exact hfate (hsame.trans (fateOf_used.2 ⟨c, hc, hm, hchanged⟩))

end System

/-! ## Two proposals, of which one is approved -/

namespace Scenario

/-- Two clients propose the same promotion, and the first proposal is approved. -/
def race : List Action :=
  calls 0 (.propose ⟨"t", none, "hotl", "file", none, none⟩) 0 11 ++
    (calls 1 (.propose ⟨"t", none, "hotl", "file", none, none⟩) 11 11 ++
      calls 2 (.approve ⟨text 9 0, "fine", none⟩) 22 2)

/-- Another client tries to approve the second one. -/
def overtaken : List Action := calls 3 (.approve ⟨text 17 0, "fine", none⟩) 24 2

theorem governed_calls {i n parts : ℕ} {call : Call} (hcall : ∀ events, call ≠ .importEvents events) :
    ∀ a ∈ calls i call n parts, ∀ W, System.Governed (fun _ _ => declaration) W a := by
  intro a ha W
  rcases mem_calls ha with rfl | ⟨k, rfl⟩
  · refine ⟨?_, trivial, trivial⟩
    cases call <;> first | trivial | exact absurd rfl (hcall _)
  · exact ⟨trivial, trivial, trivial⟩

theorem governed_race : ∀ a ∈ race, ∀ W, System.Governed (fun _ _ => declaration) W a := by
  intro a ha
  simp only [race, List.mem_append] at ha
  rcases ha with ha | ha | ha <;> exact governed_calls (by exact nofun) a ha

theorem consistent_declaration :
    Directory.All (Consistent fun _ _ => declaration) (.ok [declaration]) := by
  rintro ds ⟨⟩ d hd
  rw [List.mem_singleton.1 hd]
  rfl

/-- The state after the race, and after the attempt to approve the proposal that lost it. -/
theorem run_race : @Run _ _ (@System.next hashing config) (System.Governed fun _ _ => declaration)
      (System.init (.ok [declaration])) (after race) ∧
    @Run _ _ (@System.next hashing config) (System.Governed fun _ _ => declaration)
      (after race) (overtaken.foldl (@System.next hashing config) (after race)) :=
  ⟨Run.foldl _ _ governed_race, Run.foldl _ _ (governed_calls (by exact nofun))⟩

end Scenario

theorem System.refines_ledger_race :
    Cells.Steps (Edge fun _ _ => Scenario.declaration)
        (ledger (fun _ _ => Scenario.declaration) (Scenario.after Scenario.race).shared.table)
        (ledger (fun _ _ => Scenario.declaration) (Scenario.overtaken.foldl
          (@System.next Scenario.hashing Scenario.config)
            (Scenario.after Scenario.race)).shared.table) :=
  (@System.refines_ledger Scenario.hashing Scenario.config _ _ _ _ Scenario.consistent_declaration
    Scenario.run_race.1 Scenario.run_race.2 (by decide +kernel)).2.1

theorem System.overtaken_never_executed_race :
    (Scenario.overtaken.foldl (@System.next Scenario.hashing Scenario.config)
        (Scenario.after Scenario.race)).shared.table.filter
      (fun c => c.motionId = Scenario.text 17 0 ∧ c.event = .positionChanged) = [] := by
  have hrows : (Scenario.after Scenario.race).shared.table.map
      (fun e => (e.motionId, e.event, e.triple)) =
      [(Scenario.text 9 0, .motionProposed, Scenario.declaration.triple none),
        (Scenario.text 17 0, .motionProposed, Scenario.declaration.triple none),
        (Scenario.text 9 0, .motionApproved, Scenario.declaration.triple none),
        (Scenario.text 9 0, .positionChanged, Scenario.declaration.triple none)] := by
    decide +kernel
  obtain ⟨p₀, l₁, htable, -, hrows⟩ := List.map_eq_cons_iff.1 hrows
  obtain ⟨p, l₂, rfl, hp, hrows⟩ := List.map_eq_cons_iff.1 hrows
  obtain ⟨a, l₃, rfl, -, hrows⟩ := List.map_eq_cons_iff.1 hrows
  obtain ⟨c, l₄, rfl, hc, -⟩ := List.map_eq_cons_iff.1 hrows
  simp only [Prod.mk.injEq] at hp hc
  have hunexecuted : ∀ c ∈ (Scenario.after Scenario.race).shared.table,
      c.motionId = Scenario.text 17 0 → c.event ≠ .positionChanged := by
    decide +kernel
  rw [← hp.1] at hunexecuted
  have hnever := @System.overtaken_never_executed Scenario.hashing Scenario.config _ _ _ _
    Scenario.consistent_declaration Scenario.run_race.1 Scenario.run_race.2 (by decide +kernel)
    p [p₀] _ htable hp.2.1 ⟨c, by simp, hc.2.2.trans hp.2.2.symm, hc.2.1⟩ hunexecuted
  refine List.filter_eq_nil_iff.2 fun c hc hexecuted => ?_
  obtain ⟨hm, hchanged⟩ := of_decide_eq_true hexecuted
  exact hnever c hc (hm.trans hp.1.symm) hchanged

end PaaRuntime
