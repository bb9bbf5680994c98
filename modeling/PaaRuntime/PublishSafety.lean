import PaaRuntime.EvidencePublish

/-!
# Writers on one evidence root

Any number of `store_evidence` calls on one root, one thread each, interleaved step by step. The
invariant has the parts of `Threads.Inv`: every call satisfies `StoreCall.Inv` beside the disk, and
no two calls are responsible for one temporary file. Two further invariants speak of the calls as
a whole: every published artifact is the data of a call, and every temporary file is some call's.
-/

namespace PaaRuntime

/-- The writers on one root; a thread that has not been called holds none. -/
abbrev EvidenceWriters := Threads Disk (Option StoreCall)

/-- A thread calls `store_evidence`, or its call takes a step. -/
inductive PublishAction
  | call (i : ℕ) (data : Bytes)
  | step (i : ℕ) (outcome : StepOutcome)

namespace EvidenceWriters

/-! ## Responsibility for temporary files -/

/-- Two threads are not responsible for one temporary file. -/
def Apart (t t' : Option StoreCall) : Prop :=
  ∀ call call' tmp, t = some call → t' = some call' → call.pc.temp? = some tmp →
    call'.pc.temp? ≠ some tmp

theorem apart_none_left (t : Option StoreCall) : Apart none t := by
  intro call call' tmp h
  cases h

theorem apart_none_right (t : Option StoreCall) : Apart t none := by
  intro call call' tmp _ h
  cases h

/-- A new call is responsible for no file. -/
theorem apart_start (data : Bytes) (t : Option StoreCall) :
    Apart (some ⟨data, .mkdir⟩) t ∧ Apart t (some ⟨data, .mkdir⟩) := by
  constructor
  · intro call call' tmp h _ htmp
    cases h
    cases htmp
  · intro call call' tmp _ h _ htmp
    cases h
    cases htmp

/-! ## The machine -/

/-- An empty root and no calls. -/
def init : EvidenceWriters := ⟨Disk.empty, fun _ => none⟩

/-- A thread without a call starts one. -/
def enter (data : Bytes) (disk : Disk) : Option StoreCall → Disk × Option StoreCall
  | none => (disk, some ⟨data, .mkdir⟩)
  | some call => (disk, some call)

section

variable [Hashlib]

/-- A thread that runs a call takes a step of it. -/
def advance (root : String) (outcome : StepOutcome) (disk : Disk) :
    Option StoreCall → Disk × Option StoreCall
  | none => (disk, none)
  | some call => ((call.step root outcome disk).1, some (call.step root outcome disk).2)

/-- One action of one thread. -/
def next (root : String) (W : EvidenceWriters) : PublishAction → EvidenceWriters
  | .call i data => W.act i (enter data)
  | .step i outcome => W.act i (advance root outcome)

/-- Going from one state of the writers to another, whatever fails. -/
abbrev Reach (root : String) : EvidenceWriters → EvidenceWriters → Prop :=
  Run (next root) fun _ _ => True

/-- No step fails that its call gets to see; processes may crash. -/
def NoFailure (_ : EvidenceWriters) : PublishAction → Prop
  | .call _ _ => True
  | .step _ outcome => ¬ outcome.IsFailure

/-- No `unlink` of thread `i` fails. -/
def UnlinkSucceeds (i : ℕ) (W : EvidenceWriters) : PublishAction → Prop
  | .call _ _ => True
  | .step j outcome => j = i → ∀ call tmp r, W.thread i = some call → call.pc = .unlink tmp r →
      ¬ outcome.IsFailure

/-! ## The invariant of the writers -/

/-- The invariant of one thread. -/
def Own (io : Prop) (disk : Disk) (t : Option StoreCall) : Prop :=
  ∀ call, t = some call → call.Inv io disk

/-- The invariant of the writers. -/
abbrev Inv (io : Prop) : EvidenceWriters → Prop := Threads.Inv (fun _ => True) (fun _ => Own io) Apart

theorem inv_init (io : Prop) : Inv io init := by
  refine ⟨trivial, fun i call h => ?_, fun i j _ => apart_none_left _⟩
  cases h

theorem inv_enter {io : Prop} {W : EvidenceWriters} (h : Inv io W) (i : ℕ) (data : Bytes) :
    Inv io (W.act i (enter data)) := by
  rcases ht : W.thread i with _ | call
  · refine h.act i trivial ?_ fun _ l _ hl _ _ => ?_ <;> rw [ht]
    · intro call hc
      cases hc
      exact .start io _ data
    · exact ⟨hl, apart_start data l⟩
  · have hown := h.own i
    refine h.act i trivial ?_ fun _ l _ hl h₁ h₂ => ?_ <;> rw [ht] at *
    · exact hown
    · exact ⟨hl, h₁, h₂⟩

/-- What a step of one call leaves to another call. -/
theorem own_stable {io : Prop} {disk disk' : Disk} {call call' other : StoreCall}
    (he : StoreCall.Effect disk call disk' call') (hother : other.Inv io disk)
    (hap : ∀ tmp, other.pc.temp? = some tmp → call.pc.temp? ≠ some tmp) :
    other.Inv io disk' ∧ ∀ tmp, other.pc.temp? = some tmp → call'.pc.temp? ≠ some tmp := by
  have hap' : ∀ tmp, other.pc.temp? = some tmp → call'.pc.temp? ≠ some tmp := by
    intro tmp ho hc
    have hsome := hother.held tmp ho
    rw [he.acquired tmp (hap tmp ho) hc] at hsome
    cases hsome
  exact ⟨hother.stable he.extends fun tmp ho => he.temps tmp (hap tmp ho) (hap' tmp ho), hap'⟩

theorem inv_advance {io : Prop} {root : String} {outcome : StepOutcome} {W : EvidenceWriters}
    (h : Inv io W) (i : ℕ) (hio : outcome.IsFailure → io) :
    Inv io (W.act i (advance root outcome)) := by
  have hown := h.own i
  rcases ht : W.thread i with _ | call <;> rw [ht] at hown
  · refine h.act i trivial ?_ fun _ l _ hl h₁ h₂ => ?_ <;> rw [ht] at *
    · exact hown
    · exact ⟨hl, h₁, h₂⟩
  · have he := call.step_spec root outcome W.shared
    refine h.act i trivial ?_ fun _ l _ hl _ h₂ => ?_ <;> rw [ht] at *
    · intro c hc
      cases hc
      exact (hown call rfl).step hio
    · rcases l with _ | other
      · refine ⟨?_, apart_none_right _, apart_none_left _⟩
        intro c hc
        cases hc
      · obtain ⟨hinv, hap⟩ := own_stable he (hl other rfl) fun tmp => h₂ other call tmp rfl rfl
        refine ⟨?_, ?_, ?_⟩
        · intro c hc
          cases hc
          exact hinv
        · intro c c' tmp hc hc' htmp htmp'
          cases hc
          cases hc'
          exact hap tmp htmp' htmp
        · intro c c' tmp hc hc'
          cases hc
          cases hc'
          exact hap tmp

theorem inv_next {io : Prop} {root : String} {W : EvidenceWriters} (h : Inv io W)
    {a : PublishAction} (ha : NoFailure W a ∨ io) : Inv io (next root W a) := by
  cases a with
  | call i data => exact inv_enter h i data
  | step i outcome => exact inv_advance h i fun hf => ha.resolve_left fun hn => hn hf

theorem inv_reach {root : String} {W : EvidenceWriters} (h : Reach root init W) : Inv True W :=
  h.invariant (fun _ _ _ hW => inv_next hW (.inr trivial)) (inv_init True)

theorem inv_noFailure {root : String} {W : EvidenceWriters} (h : Run (next root) NoFailure init W) :
    Inv False W :=
  h.invariant (fun _ _ ha hW => inv_next hW (.inl ha)) (inv_init False)

/-! ## What an action does to the calls and to the disk -/

/-- A call keeps its data, whatever happens. -/
theorem next_data (root : String) (W : EvidenceWriters) (a : PublishAction) {j : ℕ}
    {call : StoreCall} (h : W.thread j = some call) :
    ∃ call', (next root W a).thread j = some call' ∧ call'.data = call.data := by
  cases a with
  | call i data =>
    by_cases hji : j = i
    · subst hji
      exact ⟨call, by simp [next, enter, h], rfl⟩
    · exact ⟨call, (W.act_thread_of_ne _ hji).trans h, rfl⟩
  | step i outcome =>
    by_cases hji : j = i
    · subst hji
      exact ⟨_, by simp [next, advance, h], (call.step_spec root outcome W.shared).data⟩
    · exact ⟨call, (W.act_thread_of_ne _ hji).trans h, rfl⟩

/-- An action leaves the disk alone, or is a step of a running call. -/
theorem next_shared (root : String) (W : EvidenceWriters) (a : PublishAction) :
    (next root W a).shared = W.shared ∨
      ∃ i outcome call, a = .step i outcome ∧ W.thread i = some call ∧
        (next root W a).shared = (call.step root outcome W.shared).1 ∧
        (next root W a).thread i = some (call.step root outcome W.shared).2 := by
  cases a with
  | call i data =>
    left
    rcases h : W.thread i with _ | call <;> simp [next, enter, h]
  | step i outcome =>
    rcases h : W.thread i with _ | call
    · left
      simp [next, advance, h]
    · exact .inr ⟨i, outcome, call, rfl, h, by simp [next, advance, h], by simp [next, advance, h]⟩

/-- What is published stays, with its content. -/
theorem next_extends (root : String) (W : EvidenceWriters) (a : PublishAction) :
    W.shared.Extends (next root W a).shared := by
  rcases next_shared root W a with h | ⟨i, outcome, call, -, -, h, -⟩ <;> rw [h]
  · exact Disk.Extends.refl _
  · exact (call.step_spec root outcome W.shared).extends

theorem reach_extends {root : String} {W W' : EvidenceWriters} (h : Reach root W W') :
    W.shared.Extends W'.shared :=
  h.relation (R := fun W W' => W.shared.Extends W'.shared) (fun _ => Disk.Extends.refl _)
    (fun h h' => h.trans h') fun W a _ => next_extends root W a

/-! ## Published artifacts and temporary files -/

/-- Every published artifact is the complete data of a call, under its digest. -/
def Origin (W : EvidenceWriters) : Prop :=
  ∀ d content, W.shared.published d = some content → computeSha256 content = d ∧
    ∃ i call, W.thread i = some call ∧ call.data = content

theorem origin_next {root : String} {W : EvidenceWriters} (hinv : Inv True W) (h : Origin W)
    (a : PublishAction) : Origin (next root W a) := by
  have hkeep : ∀ {d content}, W.shared.published d = some content → computeSha256 content = d ∧
      ∃ i call, (next root W a).thread i = some call ∧ call.data = content := by
    intro d content hd
    obtain ⟨hsha, i, call, hi, hdata⟩ := h d content hd
    obtain ⟨call', hi', hdata'⟩ := next_data root W a hi
    exact ⟨hsha, i, call', hi', hdata'.trans hdata⟩
  intro d content hd
  rcases next_shared root W a with hs | ⟨i, outcome, call, -, hi, hs, hi'⟩
  · exact hkeep (hs ▸ hd)
  · have he := call.step_spec root outcome W.shared
    rw [hs] at hd
    rcases he.published with hp | ⟨tmp, c, hpc, htmp, -, hdisk⟩
    · exact hkeep (hp ▸ hd)
    · -- the linked file holds the data of the call that links it
      obtain rfl : call.data = c :=
        Option.some.inj (((hinv.own i call hi).link tmp hpc).symm.trans htmp)
      rw [hdisk, Disk.publish_published] at hd
      by_cases hdd : d = call.digest
      · subst hdd
        obtain rfl : call.data = content := by simpa using hd
        exact ⟨rfl, i, _, hi', he.data⟩
      · rw [Function.update_of_ne hdd] at hd
        exact hkeep hd

/-- Every temporary file is the responsibility of a call. -/
def Held (W : EvidenceWriters) : Prop :=
  ∀ tmp, (W.shared.temps tmp).isSome → ∃ i call, W.thread i = some call ∧ call.pc.temp? = some tmp

theorem held_next {root : String} {W : EvidenceWriters} (h : Held W) (a : PublishAction) :
    Held (next root W a) := by
  intro tmp htmp
  cases a with
  | call i data =>
    have hs : (next root W (.call i data)).shared = W.shared := by
      rcases hi : W.thread i with _ | call <;> simp [next, enter, hi]
    obtain ⟨j, call, hj, hc⟩ := h tmp (hs ▸ htmp)
    refine ⟨j, call, ?_, hc⟩
    by_cases hji : j = i
    · subst hji
      simp [next, enter, hj]
    · exact (W.act_thread_of_ne _ hji).trans hj
  | step i outcome =>
    rcases hi : W.thread i with _ | call
    · obtain ⟨j, call, hj, hc⟩ := h tmp (by simpa [next, advance, hi] using htmp)
      refine ⟨j, call, ?_, hc⟩
      by_cases hji : j = i
      · subst hji
        rw [hi] at hj
        cases hj
      · exact (W.act_thread_of_ne _ hji).trans hj
    · have he := call.step_spec root outcome W.shared
      have htmp' : (((call.step root outcome W.shared).1).temps tmp).isSome := by
        simpa [next, advance, hi] using htmp
      by_cases hafter : (call.step root outcome W.shared).2.pc.temp? = some tmp
      · exact ⟨i, _, by simp [next, advance, hi], hafter⟩
      · by_cases hbefore : call.pc.temp? = some tmp
        · rw [he.released tmp hbefore hafter] at htmp'
          cases htmp'
        · rw [he.temps tmp hbefore hafter] at htmp'
          obtain ⟨j, other, hj, hc⟩ := h tmp htmp'
          refine ⟨j, other, ?_, hc⟩
          refine (W.act_thread_of_ne _ ?_).trans hj
          rintro rfl
          rw [hi] at hj
          cases hj
          exact hbefore hc

/-- Thread `i` leaves no temporary file when it has finished. -/
def LeavesNone (i : ℕ) (W : EvidenceWriters) : Prop :=
  ∀ call r left, W.thread i = some call → call.pc = .finished r left → left = none

theorem leavesNone_next {root : String} {i : ℕ} {W : EvidenceWriters} (h : LeavesNone i W)
    {a : PublishAction} (ha : UnlinkSucceeds i W a) : LeavesNone i (next root W a) := by
  intro call r left hi hpc
  cases a with
  | call j data =>
    by_cases hij : i = j
    · subst hij
      rcases ht : W.thread i with _ | c
      · have hc : ⟨data, .mkdir⟩ = call := by simpa [next, enter, ht] using hi
        rw [← hc] at hpc
        cases hpc
      · have hc : c = call := by simpa [next, enter, ht] using hi
        exact h c r left ht (hc ▸ hpc)
    · exact h call r left ((W.act_thread_of_ne _ hij).symm.trans hi) hpc
  | step j outcome =>
    by_cases hij : i = j
    · subst hij
      rcases ht : W.thread i with _ | c
      · simp [next, advance, ht] at hi
      · have hc : (c.step root outcome W.shared).2 = call := by
          simpa [next, advance, ht] using hi
        subst hc
        rcases StoreCall.step_left hpc with hnone | hold | ⟨⟨tmp, r', hunlink⟩, hfail⟩
        · exact hnone
        · exact h c r left ht hold
        · exact absurd hfail (ha rfl c tmp r' ht hunlink)
    · exact h call r left ((W.act_thread_of_ne _ hij).symm.trans hi) hpc

theorem origin_reach {root : String} {W : EvidenceWriters} (h : Reach root init W) : Origin W := by
  have hstep : ∀ (W : EvidenceWriters) (a : PublishAction), True → Inv True W ∧ Origin W →
      Inv True (next root W a) ∧ Origin (next root W a) :=
    fun W a _ hW => ⟨inv_next hW.1 (.inr trivial), origin_next hW.1 hW.2 a⟩
  refine (h.invariant hstep ⟨inv_init True, ?_⟩).2
  intro d content hd
  cases hd

theorem held_reach {root : String} {W : EvidenceWriters} (h : Reach root init W) : Held W := by
  refine h.invariant (fun W a _ hW => held_next hW a) ?_
  intro tmp htmp
  cases htmp

theorem leavesNone_run {root : String} {i : ℕ} {W : EvidenceWriters}
    (h : Run (next root) (UnlinkSucceeds i) init W) : LeavesNone i W := by
  refine h.invariant (fun W a ha hW => leavesNone_next hW ha) ?_
  intro call r left hi
  cases hi

/-- A call that finished has a right result. -/
theorem resultOk_of_finished {io : Prop} {W : EvidenceWriters} (h : Inv io W) {i : ℕ}
    {call : StoreCall} {r : StoreResult} {left : Option TempName} (hi : W.thread i = some call)
    (hpc : call.pc = .finished r left) : call.ResultOk io W.shared r :=
  (h.own i call hi).finished r left hpc

/-- **Concurrent content-addressed publishing is safe.** -/
theorem publishing_safe (root : String) {W : EvidenceWriters} (h : Reach root init W) :
    -- what is visible under a digest is the complete data of a call with that digest, and stays
    (∀ d content, W.shared.published d = some content → computeSha256 content = d ∧
      ∃ i call, W.thread i = some call ∧ call.data = content) ∧
    (∀ W', Reach root W W' → W.shared.Extends W'.shared) ∧
    -- what a call returned names its own data, from then on
    (∀ i call ref sha left, W.thread i = some call → call.pc = .finished (.ok (ref, sha)) left →
      sha = (computeSha256 call.data).hex ∧ ref = evidenceRefFor sha ∧
        ∀ W', Reach root W W' → W'.shared.published (computeSha256 call.data) = some call.data ∧
          verifyEvidence root W'.shared ref sha = .ok call.data) ∧
    -- without failures only a call with other data under the same digest makes a call raise
    (Run (next root) NoFailure init W → ∀ i call e left, W.thread i = some call →
      call.pc = .finished (.error e) left → e.cls = .evidenceError ∧
        ∃ j other, W.thread j = some other ∧ other.digest = call.digest ∧
          other.data ≠ call.data ∧ W.shared.published call.digest = some other.data) ∧
    -- a call whose data is not what is published raises, without failures an EvidenceError
    (∀ i call content r left, W.thread i = some call → call.pc = .finished r left →
      W.shared.published call.digest = some content → content ≠ call.data →
        ∃ e, r = .error e ∧ (Run (next root) NoFailure init W → e.cls = .evidenceError)) ∧
    -- every call ends, unless it draws taken names forever
    (∀ i call outcome, W.thread i = some call → 0 < call.pc.rank →
      (∃ call', (next root W (.step i outcome)).thread i = some call' ∧
          call'.pc.rank < call.pc.rank) ∨
        ∃ name, call.pc = .mkstemp ∧ outcome = .completes name ∧
          (W.shared.temps ⟨call.digest, name⟩).isSome) ∧
    -- a call that returned or raised leaves no temporary file: those there are other calls'
    (∀ i, Run (next root) (UnlinkSucceeds i) init W → ∀ call r left, W.thread i = some call →
      call.pc = .finished r left → ∀ tmp, (W.shared.temps tmp).isSome →
        ∃ j other, j ≠ i ∧ W.thread j = some other ∧ other.pc.temp? = some tmp) := by
  have hinv := inv_reach h
  have horigin := origin_reach h
  have herror : Run (next root) NoFailure init W → ∀ i call e left, W.thread i = some call →
      call.pc = .finished (.error e) left → e.cls = .evidenceError ∧
        ∃ content, W.shared.published call.digest = some content ∧ content ≠ call.data := by
    intro hrun i call e left hi hpc
    exact (resultOk_of_finished (inv_noFailure hrun) hi hpc).resolve_left fun hf => hf.1
  refine ⟨horigin, fun W' => reach_extends, ?_, ?_, ?_, ?_, ?_⟩
  · intro i call ref sha left hi hpc
    obtain ⟨hpub, hr⟩ := resultOk_of_finished hinv hi hpc
    obtain ⟨rfl, rfl⟩ := Prod.mk.inj hr
    refine ⟨rfl, rfl, fun W' hW' => ?_⟩
    have hpub' := reach_extends hW' _ _ hpub
    exact ⟨hpub', verifyEvidence_of_published hpub' rfl⟩
  · intro hrun i call e left hi hpc
    obtain ⟨hcls, content, hpub, hne⟩ := herror hrun i call e left hi hpc
    obtain ⟨hsha, j, other, hj, rfl⟩ := horigin _ _ hpub
    exact ⟨hcls, j, other, hj, hsha, hne, hpub⟩
  · intro i call content r left hi hpc hpub hne
    cases r with
    | ok r =>
      have hok := (resultOk_of_finished hinv hi hpc).1
      rw [hpub] at hok
      exact absurd (Option.some.inj hok) hne
    | error e => exact ⟨e, rfl, fun hrun => (herror hrun i call e left hi hpc).1⟩
  · intro i call outcome hi hrank
    rcases StoreCall.step_rank root outcome W.shared hrank with hlt | hname
    · exact .inl ⟨_, by simp [next, advance, hi], hlt⟩
    · exact .inr hname
  · intro i hrun call r left hi hpc tmp htmp
    obtain ⟨j, other, hj, hother⟩ := held_reach h tmp htmp
    refine ⟨j, other, ?_, hj, hother⟩
    rintro rfl
    rw [hi] at hj
    cases hj
    rw [hpc] at hother
    cases (leavesNone_run hrun call r left hi hpc).symm.trans hother

end

/-- Two writers whose data collide both miss the artifact at first; writer 0 links it before
writer 1 does. -/
def lostRace : List PublishAction :=
  [.call 0 [1], .call 1 [2]] ++
    [0, 1, 0, 1, 0, 1, 0, 1, 0, 0, 1, 1, 1].map fun i => .step i (.completes (toString i))

theorem publishing_safe_lostRace :
    ∃ e left, let W := lostRace.foldl (@next .colliding "root") init
      (∃ call, W.thread 1 = some call ∧ call.pc = .finished (.error e) left) ∧
        e.cls = .evidenceError := by
  have hstep : ∀ a ∈ lostRace, ∀ W : EvidenceWriters, NoFailure W a := by
    intro a ha W
    simp only [lostRace, List.mem_append, List.mem_map] at ha
    rcases ha with ha | ⟨i, -, rfl⟩
    · simp only [List.mem_cons, List.not_mem_nil, or_false] at ha
      rcases ha with rfl | rfl <;> trivial
    · exact id
  have hrun := @Run.foldl _ _ (@next .colliding "root") NoFailure init lostRace hstep
  have hsafe := @publishing_safe .colliding "root" _ (hrun.mono fun _ _ _ => trivial)
  exact ⟨_, _, ⟨_, rfl, rfl⟩, (hsafe.2.2.2.1 hrun 1 _ _ _ rfl rfl).1⟩

end EvidenceWriters

end PaaRuntime
