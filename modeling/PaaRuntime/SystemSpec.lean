import PaaRuntime.ClientSpec

/-!
# What an action of the system does

The invariant of the clients in the three parts of `Threads.Inv`: every declaration in force satisfies
`D`, each client knows what `Client.Ok` says, and no two clients are responsible for one temporary
file. `System.next_table` says which actions write rows, and of which client they are.
-/

namespace PaaRuntime

variable [Hashlib]

/-! ## The invariant of the system -/

/-- A client that commits holds the write lock, or nobody does. -/
theorem Commits.lock {D : PaaTaskDeclaration → Prop} {config : RuntimeConfig} {i : ℕ} {sh : Shared}
    {c c' : Client} {written : List AutonomyEvent} (h : Commits config sh c c' written)
    (hok : c.Ok D i sh) : sh.lock = none ∨ sh.lock = some i := by
  cases h with
  | propose hlock => exact .inl hlock
  | approve hlock => exact .inl hlock
  | reject hlock => exact .inl hlock
  | demote => exact .inr hok.knows.2.1
  | importEvents hlock => exact .inl hlock

theorem Commits.fits {config : RuntimeConfig} {sh : Shared} {c c' : Client} {written : List AutonomyEvent}
    (h : Commits config sh c c' written) : FitsAll sh.table written := by
  cases h with
  | propose _ h => exact ⟨h.fits, trivial⟩
  | approve _ h => exact h.fits
  | reject _ h => exact ⟨h.fits, trivial⟩
  | demote _ h => exact h.fits
  | importEvents _ h => exact h

namespace System

variable {D : PaaTaskDeclaration → Prop} {config : RuntimeConfig} {W : System}

/-- The invariant of the clients: what each knows, and apart in what they store. -/
abbrev Inv (D : PaaTaskDeclaration → Prop) : System → Prop :=
  Threads.Inv (fun sh => sh.directory.All D) (fun i sh c => c.Ok D i sh)
    fun c c' => EvidenceWriters.Apart c.call? c'.call?

/-- A directory that replaces another has only declarations that satisfy `D`. -/
def LoadsOnly (D : PaaTaskDeclaration → Prop) (_ : System) : Action → Prop
  | .replaceDirectory directory => directory.All D
  | _ => True

theorem inv_init {directory : Directory} (h : directory.All D) : Inv D (init directory) :=
  ⟨h, fun _ => ⟨nofun, trivial⟩, fun _ _ _ => EvidenceWriters.apart_none_left _⟩

/-- A step of a client that spares the others keeps the invariant. -/
theorem inv_act (h : Inv D W) (i : ℕ) {f : Shared → Client → Shared × Client}
    (ha : Advances D config i W.shared (W.thread i) (f W.shared (W.thread i)).1
      (f W.shared (W.thread i)).2) : Inv D (W.act i f) := by
  refine h.act i ?_ ha.ok ?_
  · rw [ha.directory]
    exact h.shared
  · intro j l hji hl _ hapart
    have hknows := hl.knows.mono ha.disk (ha.lock j hji)
    refine ⟨⟨fun call hc => ?_, hknows⟩, ?_, ?_⟩
    · exact (ha.spares call (hl.call call hc) fun mine tmp hm => hapart call mine tmp hc hm).1
    · intro mine other tmp hm ho htmp hother
      exact (ha.spares other (hl.call other ho) fun mine tmp hm => hapart other mine tmp ho hm).2
        mine tmp hm hother htmp
    · intro other mine tmp ho hm hother htmp
      exact (ha.spares other (hl.call other ho) fun mine tmp hm => hapart other mine tmp ho hm).2
        mine tmp hm hother htmp

theorem start_advances (config : RuntimeConfig) (h : Inv D W) (i : ℕ) (call : Call) :
    Advances D config i W.shared (W.thread i) (Client.start call W.shared (W.thread i)).1
      (Client.start call W.shared (W.thread i)).2 := by
  have hok := h.own i
  rcases ht : W.thread i with _ | _ | _ | _ | _ | _ <;> rw [ht] at hok
  case idle => cases call <;> exact .quiet fresh_none trivial
  all_goals exact ⟨rfl, fun _ _ h => h, Disk.Extends.refl _, fun _ h₁ h₂ => ⟨h₁, h₂⟩, hok, .inl rfl⟩

theorem crash_advances (config : RuntimeConfig) (h : Inv D W) (i : ℕ) :
    Advances D config i W.shared (W.thread i) (Client.crash i W.shared (W.thread i)).1
      (Client.crash i W.shared (W.thread i)).2 := by
  have hok := h.own i
  have hreleased : ∀ {c c' : Client}, c'.call? = none → c'.Knows D i (W.shared.release i) →
      Advances D config i W.shared c (W.shared.release i) c' := by
    intro c c' hcall hknows
    refine ⟨rfl, fun j hji h => Shared.release_lock_of_ne hji h, Disk.Extends.refl _, ?_,
      ⟨?_, hknows⟩, .inl rfl⟩ <;> rw [hcall]
    · exact spares_fresh _ _ fresh_none
    · nofun
  rcases ht : W.thread i with _ | ⟨args, stage⟩ | ⟨args, stage⟩ | ⟨args, stage⟩ | ⟨args, stage⟩ |
    ⟨events, stage⟩ <;> rw [ht] at hok
  case idle =>
    exact ⟨rfl, fun _ _ h => h, Disk.Extends.refl _, fun _ h₁ h₂ => ⟨h₁, h₂⟩, hok, .inl rfl⟩
  all_goals
    cases stage with
    | returned r => exact hreleased rfl hok.knows
    | _ => exact hreleased rfl trivial

theorem inv_next (h : Inv D W) {a : Action} (ha : LoadsOnly D W a) : Inv D (next config W a) := by
  cases a with
  | replaceDirectory directory =>
    refine h.setShared ha fun i c hc => ⟨hc.call, hc.knows.mono (Disk.Extends.refl _) id⟩
  | start i call => exact inv_act h i (start_advances config h i call)
  | advance i io outcome => exact inv_act h i (Client.advance_spec config h.shared (h.own i) io outcome)
  | crash i => exact inv_act h i (crash_advances config h i)

omit [Hashlib] in
theorem loadsOnly_true (W : System) (a : Action) : LoadsOnly (fun _ => True) W a := by
  cases a <;> first | trivial | exact fun _ _ _ _ => trivial

/-- The invariant holds of every state reached. -/
theorem inv_run {ok : System → Action → Prop} {W' : System} (hok : ∀ W a, ok W a → LoadsOnly D W a)
    (hW : Inv D W) (h : Run (next config) ok W W') : Inv D W' :=
  h.invariant (fun _ a ha hW => inv_next hW (hok _ a ha)) hW

/-- What the clients know holds in every state that any actions reach. -/
theorem inv_reach {ok : System → Action → Prop} {directory : Directory}
    (h : Run (next config) ok (init directory) W) : Inv (fun _ => True) W :=
  inv_run (fun W a _ => loadsOnly_true W a) (inv_init fun _ _ _ _ => trivial) h

/-! ## What an action does to the rows and to the clients -/

/-- An action leaves the rows alone, or is the step of a client that commits its rows. -/
theorem next_table (h : Inv D W) (a : Action) :
    (next config W a).shared.table = W.shared.table ∨ ∃ i io outcome written,
      a = .advance i io outcome ∧
      (next config W a).shared.table = W.shared.table ++ written ∧
      Commits config W.shared (W.thread i) ((next config W a).thread i) written := by
  cases a with
  | replaceDirectory directory => exact .inl rfl
  | start i call =>
    left
    rcases ht : W.thread i <;> simp [next, Client.start, ht]
  | advance i io outcome =>
    have hadv := Client.advance_spec config h.shared (h.own i) io outcome
    rcases hadv.commits with hsame | ⟨written, htable, hcommits⟩
    · exact .inl hsame
    · refine .inr ⟨i, io, outcome, written, rfl, htable, ?_⟩
      rwa [next, Threads.act_thread_self]
  | crash i =>
    left
    rcases ht : W.thread i <;> simp [next, Client.crash, ht]

/-- While a client holds the write lock, no other one commits. -/
theorem table_of_lock (hinv : Inv D W) {i j : ℕ} (hlock : W.shared.lock = some i) (hji : j ≠ i)
    {io : Io} {outcome : StepOutcome} :
    (next config W (.advance j io outcome)).shared.table = W.shared.table := by
  have hadv := Client.advance_spec config hinv.shared (hinv.own j) io outcome
  rcases hadv.commits with hsame | ⟨written, -, hcommits⟩
  · exact hsame
  · rcases hcommits.lock (hinv.own j) with hfree | hj
    · rw [hlock] at hfree
      cases hfree
    · rw [hlock] at hj
      exact absurd (Option.some.inj hj).symm hji

/-- The rows only grow. -/
theorem run_table {ok : System → Action → Prop} {W' : System} (hok : ∀ W a, ok W a → LoadsOnly D W a)
    (hW : Inv D W) (h : Run (next config) ok W W') :
    ∃ more, W'.shared.table = W.shared.table ++ more := by
  refine (h.invariant (P := fun W' => Inv D W' ∧ ∃ more, W'.shared.table = W.shared.table ++ more)
    ?_ ⟨hW, [], (List.append_nil _).symm⟩).2
  rintro V a ha ⟨hV, more, hmore⟩
  refine ⟨inv_next hV (hok V a ha), ?_⟩
  rcases next_table hV a with hsame | ⟨i, io, outcome, written, -, htable, -⟩
  · exact ⟨more, hsame.trans hmore⟩
  · exact ⟨more ++ written, by rw [htable, hmore, List.append_assoc]⟩

/-! ## Rows that fit -/

omit [Hashlib] in
theorem fitsAll_grown : ∀ {t : Table} {written : List AutonomyEvent}, StampedLog.Grown Fits t →
    FitsAll t written → StampedLog.Grown Fits (t ++ written)
  | t, [], ht, _ => by rwa [List.append_nil]
  | t, e :: written, ht, h => by
    rw [← List.singleton_append, ← List.append_assoc]
    exact fitsAll_grown (StampedLog.grown_concat.2 ⟨ht, h.1⟩) h.2

omit [Hashlib] in
/-- Rows that each fit beside those before them have distinct ids. -/
theorem ids_of_grown {t : Table} (h : StampedLog.Grown Fits t) : t.Pairwise (·.id ≠ ·.id) :=
  (h.mono fun _ _ he b hb => (he.unique b hb).1).pairwise

/-- Every row fits beside those committed before it. -/
theorem fits_reach {ok : System → Action → Prop} {directory : Directory}
    (h : Run (next config) ok (init directory) W) : StampedLog.Grown Fits W.shared.table := by
  refine (h.invariant (P := fun W => Inv (fun _ => True) W ∧ StampedLog.Grown Fits W.shared.table)
    ?_ ⟨inv_init fun _ _ _ _ => trivial, StampedLog.grown_nil _⟩).2
  rintro V a - ⟨hV, hfits⟩
  refine ⟨inv_next hV (loadsOnly_true V a), ?_⟩
  rcases next_table hV a with hsame | ⟨i, io, outcome, written, -, htable, hcommits⟩
  · rwa [hsame]
  · rw [htable]
    exact fitsAll_grown hfits hcommits.fits

/-- An action of one client leaves the others as they are. -/
theorem next_thread_of_ne {a : Action} {i j : ℕ} (hji : j ≠ i)
    (ha : (∃ call, a = .start i call) ∨ (∃ io outcome, a = .advance i io outcome) ∨ a = .crash i) :
    (next config W a).thread j = W.thread j := by
  rcases ha with ⟨call, rfl⟩ | ⟨io, outcome, rfl⟩ | rfl <;> exact W.act_thread_of_ne _ hji

end System

end PaaRuntime
