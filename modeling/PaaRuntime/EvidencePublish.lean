import PaaRuntime.Evidence
import PaaRuntime.Lib.Interleaving

/-!
# Publishing evidence concurrently

`store_evidence` as a machine whose steps are its file-system steps: make the directory, test
whether the destination exists, create a private temporary file, write it, link it to the
destination unless that exists, read the destination back, unlink the temporary file. Any step
may raise, and the process may crash at any step; a write that does not complete leaves some
prefix of its data.

`StoreCall.step_spec` says once what a step can do. The invariant of one call beside the disk is
`StoreCall.Inv`: the private file holds the data when it is linked, a destination about to be read
back exists, and a returned result names an artifact that holds exactly the call's data. What a
call relies on is that published artifacts stay and that nobody touches its private file.
-/

namespace PaaRuntime

/-- What `store_evidence` returns or raises. -/
abbrev StoreResult := Except PyError (String × String)

/-- Where a call stands: the file-system step it takes next. -/
inductive StorePc
  | mkdir
  | existsCheck
  | mkstemp
  | write (tmp : TempName)
  | link (tmp : TempName)
  | accept (tmp : Option TempName)
  | unlink (tmp : TempName) (result : StoreResult)
  | finished (result : StoreResult) (left : Option TempName)
  | crashed (left : Option TempName)

/-- The temporary file a call is responsible for. -/
def StorePc.temp? : StorePc → Option TempName
  | .mkdir | .existsCheck | .mkstemp => none
  | .write tmp | .link tmp | .unlink tmp _ => some tmp
  | .accept tmp | .finished _ tmp | .crashed tmp => tmp

/-- The most steps a call still takes, but for temporary names drawn again. -/
def StorePc.rank : StorePc → ℕ
  | .mkdir => 7
  | .existsCheck => 6
  | .mkstemp => 5
  | .write _ => 4
  | .link _ => 3
  | .accept _ => 2
  | .unlink _ _ => 1
  | .finished _ _ | .crashed _ => 0

/-- A call of `store_evidence`. -/
structure StoreCall where
  data : Bytes
  pc : StorePc

/-- How the surroundings let a step end: it completes (`mkstemp` drawing `name`), it raises, or
the process dies; `written` bytes get out of an incomplete write. -/
inductive StepOutcome
  | completes (name : String)
  | raises (f : Fault) (written : ℕ)
  | crashes (written : ℕ)

/-- The step's outcome is a failure of the surroundings that the call gets to see. -/
def StepOutcome.IsFailure : StepOutcome → Prop
  | .raises _ _ => True
  | _ => False

namespace StoreCall

/-- The call goes on at `pc`. -/
def goto (call : StoreCall) (pc : StorePc) : StoreCall := { call with pc := pc }

/-- After the body of the `try`: the `finally` clause unlinks the temporary file, if any. -/
def closing (call : StoreCall) (tmp : Option TempName) (result : StoreResult) : StoreCall :=
  match tmp with
  | none => call.goto (.finished result none)
  | some tmp => call.goto (.unlink tmp result)

@[simp] theorem goto_data (call : StoreCall) (pc : StorePc) : (call.goto pc).data = call.data := rfl

@[simp] theorem goto_pc (call : StoreCall) (pc : StorePc) : (call.goto pc).pc = pc := rfl

@[simp] theorem closing_data (call : StoreCall) (tmp : Option TempName) (r : StoreResult) :
    (call.closing tmp r).data = call.data := by cases tmp <;> rfl

@[simp] theorem closing_temp (call : StoreCall) (tmp : Option TempName) (r : StoreResult) :
    (call.closing tmp r).pc.temp? = tmp := by cases tmp <;> rfl

theorem closing_rank (call : StoreCall) (tmp : Option TempName) (r : StoreResult) :
    (call.closing tmp r).pc.rank ≤ 1 := by cases tmp <;> simp [closing, StorePc.rank]

variable [Hashlib]

/-- The digest of the call's data. -/
def digest (call : StoreCall) : Digest := computeSha256 call.data

/-- What a call that stored its data returns. -/
def success (call : StoreCall) : StoreResult :=
  .ok (evidenceRefFor call.digest.hex, call.digest.hex)

/-- One file-system step of `store_evidence`. -/
def step (root : String) (outcome : StepOutcome) (disk : Disk) (call : StoreCall) :
    Disk × StoreCall :=
  match call.pc, outcome with
  | .finished _ _, _ => (disk, call)
  | .crashed _, _ => (disk, call)
  | .write tmp, .crashes written =>
    (disk.setTemp tmp (some (call.data.take written)), call.goto (.crashed (some tmp)))
  | pc, .crashes _ => (disk, call.goto (.crashed pc.temp?))
  | .write tmp, .raises f written =>
    (disk.setTemp tmp (some (call.data.take written)), call.closing (some tmp) (.error f.toError))
  | .unlink tmp _, .raises f _ => (disk, call.goto (.finished (.error f.toError) (some tmp)))
  | pc, .raises f _ => (disk, call.closing pc.temp? (.error f.toError))
  | .mkdir, .completes _ => (disk, call.goto .existsCheck)
  | .existsCheck, .completes _ =>
    -- the fast path: already stored
    if (disk.published call.digest).isSome then (disk, call.goto (.accept none))
    else (disk, call.goto .mkstemp)
  | .mkstemp, .completes name =>
    -- a name already taken is drawn again
    if (disk.temps ⟨call.digest, name⟩).isSome then (disk, call)
    else (disk.setTemp ⟨call.digest, name⟩ (some []), call.goto (.write ⟨call.digest, name⟩))
  | .write tmp, .completes _ => (disk.setTemp tmp (some call.data), call.goto (.link tmp))
  | .link tmp, .completes _ =>
    -- the atomic no-clobber publish
    if (disk.published call.digest).isSome then (disk, call.goto (.accept (some tmp)))
    else
      match disk.temps tmp with
      | some content => (disk.publish call.digest content, call.closing (some tmp) call.success)
      | none => (disk, call.closing (some tmp) (.error ⟨.fileNotFoundError, tmp.name⟩))
  | .accept tmp, .completes _ =>
    (disk, call.closing tmp (acceptExisting root disk call.data call.digest))
  | .unlink tmp result, .completes _ => (disk.setTemp tmp none, call.goto (.finished result none))

/-! ## What a step can do -/

/-- A step on the disk, as the other calls see it. -/
structure Effect (disk : Disk) (call : StoreCall) (disk' : Disk) (call' : StoreCall) : Prop where
  data : call'.data = call.data
  /-- It publishes at most what its linked temporary file holds, and only where nothing was. -/
  published : disk'.published = disk.published ∨
    ∃ tmp content, call.pc = .link tmp ∧ disk.temps tmp = some content ∧
      disk.published call.digest = none ∧ disk' = disk.publish call.digest content
  /-- It touches no temporary file but its own. -/
  temps : ∀ tmp, call.pc.temp? ≠ some tmp → call'.pc.temp? ≠ some tmp →
    disk'.temps tmp = disk.temps tmp
  /-- A file it creates was not there. -/
  acquired : ∀ tmp, call.pc.temp? ≠ some tmp → call'.pc.temp? = some tmp → disk.temps tmp = none
  /-- A file it is responsible for is there. -/
  held : (∀ tmp, call.pc.temp? = some tmp → (disk.temps tmp).isSome) →
    ∀ tmp, call'.pc.temp? = some tmp → (disk'.temps tmp).isSome
  /-- A file it stops being responsible for is gone. -/
  released : ∀ tmp, call.pc.temp? = some tmp → call'.pc.temp? ≠ some tmp → disk'.temps tmp = none

/-- A step that keeps the disk and the temporary file has the effect of none. -/
theorem Effect.quiet {disk : Disk} {call call' : StoreCall} (hd : call'.data = call.data)
    (ht : call'.pc.temp? = call.pc.temp?) : Effect disk call disk call' where
  data := hd
  published := .inl rfl
  temps _ _ _ := rfl
  acquired _ h h' := absurd (ht ▸ h') h
  held h tmp htmp := h tmp (ht ▸ htmp)
  released _ h h' := absurd (ht.trans h) h'

/-- A step that writes its own temporary file. -/
theorem Effect.writing {disk : Disk} {call call' : StoreCall} {tmp : TempName} {content : Bytes}
    (hd : call'.data = call.data) (ht : call.pc.temp? = some tmp)
    (ht' : call'.pc.temp? = some tmp) :
    Effect disk call (disk.setTemp tmp (some content)) call' where
  data := hd
  published := .inl rfl
  temps tmp' h _ := by
    have hne : tmp' ≠ tmp := fun he => h (he ▸ ht)
    simp [Function.update_of_ne hne]
  acquired tmp' h h' := absurd (ht.trans (ht'.symm.trans h')) h
  held _ tmp' h' := by
    obtain rfl : tmp = tmp' := Option.some.inj (ht'.symm.trans h')
    simp
  released tmp' h h' := absurd (ht'.trans (ht.symm.trans h)) h'

/-- **The steps of a call.** -/
theorem step_spec (root : String) (outcome : StepOutcome) (disk : Disk) (call : StoreCall) :
    Effect disk call (step root outcome disk call).1 (step root outcome disk call).2 := by
  obtain ⟨data, pc⟩ := call
  cases pc with
  | mkdir => cases outcome <;> exact Effect.quiet rfl rfl
  | existsCheck =>
    cases outcome with
    | completes name =>
      simp only [step]
      split_ifs <;> exact Effect.quiet rfl rfl
    | _ => exact Effect.quiet rfl rfl
  | mkstemp =>
    cases outcome with
    | completes name =>
      simp only [step]
      split_ifs with h
      · exact Effect.quiet rfl rfl
      · have hnone := Option.not_isSome_iff_eq_none.1 h
        refine ⟨rfl, .inl rfl, fun tmp _ h' => ?_, fun tmp _ h' => ?_, fun _ tmp h' => ?_,
          fun tmp h' => ?_⟩
        · exact Function.update_of_ne (by rintro rfl; exact h' rfl) ..
        · obtain rfl := Option.some.inj h'
          exact hnone
        · obtain rfl := Option.some.inj h'
          simp
        · cases h'
    | _ => exact Effect.quiet rfl rfl
  | write tmp => cases outcome <;> exact Effect.writing rfl rfl rfl
  | link tmp =>
    cases outcome with
    | completes name =>
      simp only [step]
      split_ifs with h
      · exact Effect.quiet rfl rfl
      · have hnone := Option.not_isSome_iff_eq_none.1 h
        rcases ht : disk.temps tmp with _ | content
        · exact Effect.quiet rfl rfl
        · exact ⟨rfl, .inr ⟨tmp, content, rfl, ht, hnone, rfl⟩, fun _ _ _ => rfl,
            fun _ h h' => absurd h' h, fun hh => hh, fun _ h h' => absurd h h'⟩
    | _ => exact Effect.quiet rfl rfl
  | accept tmp =>
    cases outcome with
    | crashes written => exact Effect.quiet rfl rfl
    | _ => exact Effect.quiet (closing_data ..) (closing_temp ..)
  | unlink tmp result =>
    cases outcome with
    | completes name =>
      refine ⟨rfl, .inl rfl, fun tmp' h _ => ?_, fun tmp' _ h' => ?_, fun _ tmp' h' => ?_,
        fun tmp' h' _ => ?_⟩
      · exact Function.update_of_ne (by rintro rfl; exact h rfl) ..
      · cases h'
      · cases h'
      · obtain rfl := Option.some.inj h'
        simp [step]
    | _ => exact Effect.quiet rfl rfl
  | finished result left => exact Effect.quiet rfl rfl
  | crashed left => exact Effect.quiet rfl rfl

/-- What is published stays, with its content. -/
theorem Effect.extends {disk disk' : Disk} {call call' : StoreCall}
    (h : Effect disk call disk' call') : disk.Extends disk' := by
  intro d content hd
  rcases h.published with he | ⟨tmp, c, -, -, hnone, rfl⟩
  · rwa [he]
  · have hne : d ≠ call.digest := by
      rintro rfl
      rw [hnone] at hd
      cases hd
    simpa [Function.update_of_ne hne] using hd

/-- A step of a call that has not ended brings it nearer to its end, unless it draws a temporary
name that is taken. -/
theorem step_rank (root : String) (outcome : StepOutcome) (disk : Disk) {call : StoreCall}
    (h : 0 < call.pc.rank) :
    (step root outcome disk call).2.pc.rank < call.pc.rank ∨
      ∃ name, call.pc = .mkstemp ∧ outcome = .completes name ∧
        (disk.temps ⟨call.digest, name⟩).isSome := by
  obtain ⟨data, pc⟩ := call
  cases pc with
  | mkdir => left; cases outcome <;> simp [step, StorePc.temp?, closing, StorePc.rank]
  | existsCheck =>
    left
    cases outcome with
    | completes name =>
      simp only [step]
      split_ifs <;> simp [StorePc.rank]
    | _ => simp [step, StorePc.temp?, closing, StorePc.rank]
  | mkstemp =>
    cases outcome with
    | completes name =>
      simp only [step]
      split_ifs with ht
      · exact .inr ⟨name, trivial, rfl, ht⟩
      · exact .inl (by simp [StorePc.rank])
    | _ => exact .inl (by simp [step, StorePc.temp?, closing, StorePc.rank])
  | write tmp => left; cases outcome <;> simp [step, closing, StorePc.rank]
  | link tmp =>
    left
    cases outcome with
    | completes name =>
      simp only [step]
      split_ifs
      · simp [StorePc.rank]
      · split <;> simp [closing, StorePc.rank]
    | _ => simp [step, StorePc.temp?, closing, StorePc.rank]
  | accept tmp =>
    left
    cases outcome with
    | crashes written => simp [step, StorePc.rank]
    | _ => exact Nat.lt_succ_of_le (closing_rank ..)
  | unlink tmp result => left; cases outcome <;> simp [step, StorePc.rank]
  | finished result left => cases h
  | crashed left => cases h

/-- A call ends with a temporary file left only when its `unlink` fails. -/
theorem step_left {root : String} {outcome : StepOutcome} {disk : Disk} {call : StoreCall}
    {r : StoreResult} {left : Option TempName}
    (h : (step root outcome disk call).2.pc = .finished r left) :
    left = none ∨ call.pc = .finished r left ∨
      (∃ tmp r, call.pc = .unlink tmp r) ∧ outcome.IsFailure := by
  have hclosing : ∀ {tmp : Option TempName} {r' : StoreResult},
      (call.closing tmp r').pc = .finished r left → left = none := by
    rintro (_ | tmp) r' h <;> cases h
    rfl
  obtain ⟨data, pc⟩ := call
  cases pc with
  | mkdir =>
    cases outcome with
    | raises f written => exact .inl (hclosing h)
    | _ => cases h
  | existsCheck =>
    cases outcome with
    | completes name =>
      simp only [step] at h
      split_ifs at h <;> cases h
    | raises f written => exact .inl (hclosing h)
    | crashes written => cases h
  | mkstemp =>
    cases outcome with
    | completes name =>
      simp only [step] at h
      split_ifs at h
      cases h
    | raises f written => exact .inl (hclosing h)
    | crashes written => cases h
  | write tmp => cases outcome <;> cases h
  | link tmp =>
    cases outcome with
    | completes name =>
      simp only [step] at h
      split_ifs at h
      · cases h
      · split at h <;> exact .inl (hclosing h)
    | _ => cases h
  | accept tmp =>
    cases outcome with
    | crashes written => cases h
    | _ => exact .inl (hclosing h)
  | unlink tmp result =>
    cases outcome with
    | completes name => cases h; exact .inl rfl
    | raises f written => exact .inr (.inr ⟨⟨tmp, result, rfl⟩, trivial⟩)
    | crashes written => cases h
  | finished result left' => exact .inr (.inl h)
  | crashed left' => cases h

/-! ## The invariant of a call -/

/-- A result is right for the data: a returned one names an artifact holding exactly the data, a
raised one comes from a failure of the surroundings (excluded where `io` is false) or from other
bytes published under the same digest. -/
def ResultOk (io : Prop) (disk : Disk) (call : StoreCall) : StoreResult → Prop
  | .ok r => disk.published call.digest = some call.data ∧
      r = (evidenceRefFor call.digest.hex, call.digest.hex)
  | .error e => io ∧ e.cls.IsFault ∨
      e.cls = .evidenceError ∧ ∃ content, disk.published call.digest = some content ∧
        content ≠ call.data

/-- The invariant of a call beside the disk. -/
structure Inv (io : Prop) (disk : Disk) (call : StoreCall) : Prop where
  held : ∀ tmp, call.pc.temp? = some tmp → (disk.temps tmp).isSome
  link : ∀ tmp, call.pc = .link tmp → disk.temps tmp = some call.data
  accept : ∀ tmp, call.pc = .accept tmp → (disk.published call.digest).isSome
  unlink : ∀ tmp r, call.pc = .unlink tmp r → ResultOk io disk call r
  finished : ∀ r left, call.pc = .finished r left → ResultOk io disk call r

theorem ResultOk.mono {io : Prop} {disk disk' : Disk} {call : StoreCall} {r : StoreResult}
    (h : ResultOk io disk call r) (hext : disk.Extends disk') : ResultOk io disk' call r := by
  cases r with
  | ok r => exact ⟨hext _ _ h.1, h.2⟩
  | error e =>
    rcases h with h | ⟨he, c, hc, hne⟩
    · exact .inl h
    · exact .inr ⟨he, c, hext _ _ hc, hne⟩

/-- The invariant only looks at published artifacts and at the call's own file. -/
theorem Inv.stable {io : Prop} {disk disk' : Disk} {call : StoreCall} (h : Inv io disk call)
    (hext : disk.Extends disk')
    (htemps : ∀ tmp, call.pc.temp? = some tmp → disk'.temps tmp = disk.temps tmp) :
    Inv io disk' call where
  held tmp ht := by rw [htemps tmp ht]; exact h.held tmp ht
  link tmp ht := by rw [htemps tmp (by rw [ht]; rfl)]; exact h.link tmp ht
  accept tmp ht := by
    obtain ⟨c, hc⟩ := Option.isSome_iff_exists.1 (h.accept tmp ht)
    rw [hext _ _ hc]
    rfl
  unlink tmp r ht := (h.unlink tmp r ht).mono hext
  finished r left ht := (h.finished r left ht).mono hext

theorem Inv.start (io : Prop) (disk : Disk) (data : Bytes) : Inv io disk ⟨data, .mkdir⟩ :=
  ⟨nofun, nofun, nofun, nofun, nofun⟩

/-- Entering the `finally` clause with a right result. -/
theorem Inv.closing {io : Prop} {disk : Disk} {call : StoreCall} {tmp : Option TempName}
    {r : StoreResult} (hheld : ∀ t, tmp = some t → (disk.temps t).isSome)
    (hr : ResultOk io disk call r) : Inv io disk (call.closing tmp r) := by
  cases tmp with
  | none => exact ⟨nofun, nofun, nofun, nofun, fun r' left h => by cases h; exact hr⟩
  | some t =>
    refine ⟨fun t' h => ?_, nofun, nofun, fun t' r' h => ?_, nofun⟩
    · exact hheld t' h
    · cases h; exact hr

/-- Ending without a temporary file, with a right result. -/
theorem Inv.ended {io : Prop} {disk : Disk} (call : StoreCall) {r : StoreResult}
    (hr : ResultOk io disk call r) : Inv io disk (call.goto (.finished r none)) :=
  ⟨nofun, nofun, nofun, nofun, fun r' left h => by cases h; exact hr⟩

/-- Going to a place that only asks for the call's file to be there. -/
theorem Inv.goto {io : Prop} {disk : Disk} {call : StoreCall} {pc : StorePc}
    (hheld : ∀ tmp, pc.temp? = some tmp → (disk.temps tmp).isSome)
    (hpc : (∀ tmp, pc ≠ .link tmp) ∧ (∀ tmp, pc ≠ .accept tmp) ∧ (∀ tmp r, pc ≠ .unlink tmp r) ∧
      ∀ r left, pc ≠ .finished r left) : Inv io disk (call.goto pc) :=
  ⟨hheld, fun _ h => absurd h (hpc.1 _), fun _ h => absurd h (hpc.2.1 _),
    fun _ _ h => absurd h (hpc.2.2.1 _ _), fun _ _ h => absurd h (hpc.2.2.2 _ _)⟩

theorem resultOk_fault {io : Prop} (hio : io) {disk : Disk} {call : StoreCall} (f : Fault) :
    ResultOk io disk call (.error f.toError) := .inl ⟨hio, f.toError_isFault⟩

/-- Reading back an artifact that exists decides by its bytes. -/
theorem resultOk_acceptExisting {io : Prop} {root : String} {disk : Disk} {call : StoreCall}
    (h : (disk.published call.digest).isSome) :
    ResultOk io disk call (acceptExisting root disk call.data call.digest) := by
  rcases hr : acceptExisting root disk call.data call.digest with e | r
  · obtain ⟨hcls, hne⟩ := acceptExisting_error hr
    obtain ⟨content, hc⟩ := Option.isSome_iff_exists.1 h
    refine .inr ⟨hcls, content, hc, ?_⟩
    rintro rfl
    exact hne hc
  · exact acceptExisting_ok.1 hr

/-- **A call's own step keeps its invariant**, if failures are allowed or this is none. -/
theorem Inv.step {io : Prop} {root : String} {outcome : StepOutcome} {disk : Disk}
    {call : StoreCall} (h : Inv io disk call) (hio : outcome.IsFailure → io) :
    Inv io (step root outcome disk call).1 (step root outcome disk call).2 := by
  have hheld := (step_spec root outcome disk call).held h.held
  obtain ⟨data, pc⟩ := call
  cases pc with
  | mkdir =>
    cases outcome with
    | completes name => exact .goto nofun ⟨nofun, nofun, nofun, nofun⟩
    | raises f written => exact Inv.ended ⟨data, _⟩ (resultOk_fault (hio trivial) f)
    | crashes written => exact .goto nofun ⟨nofun, nofun, nofun, nofun⟩
  | existsCheck =>
    cases outcome with
    | completes name =>
      simp only [StoreCall.step]
      split_ifs with hp
      · exact ⟨nofun, nofun, fun _ _ => hp, nofun, nofun⟩
      · exact .goto nofun ⟨nofun, nofun, nofun, nofun⟩
    | raises f written => exact Inv.ended ⟨data, _⟩ (resultOk_fault (hio trivial) f)
    | crashes written => exact .goto nofun ⟨nofun, nofun, nofun, nofun⟩
  | mkstemp =>
    cases outcome with
    | completes name =>
      simp only [StoreCall.step] at hheld ⊢
      split_ifs at hheld ⊢
      · exact h
      · exact .goto hheld ⟨nofun, nofun, nofun, nofun⟩
    | raises f written => exact Inv.ended ⟨data, _⟩ (resultOk_fault (hio trivial) f)
    | crashes written => exact .goto nofun ⟨nofun, nofun, nofun, nofun⟩
  | write tmp =>
    cases outcome with
    | completes name =>
      refine ⟨hheld, fun tmp' ht => ?_, nofun, nofun, nofun⟩
      cases ht
      exact Function.update_self ..
    | raises f written => exact .closing hheld (resultOk_fault (hio trivial) f)
    | crashes written => exact .goto hheld ⟨nofun, nofun, nofun, nofun⟩
  | link tmp =>
    cases outcome with
    | completes name =>
      have hlink := h.link tmp rfl
      simp only [StoreCall.step] at hheld ⊢
      split_ifs at hheld ⊢ with hp
      · exact ⟨hheld, nofun, fun _ _ => hp, nofun, nofun⟩
      · simp only [hlink] at hheld ⊢
        exact .closing hheld ⟨Function.update_self .., rfl⟩
    | raises f written => exact .closing hheld (resultOk_fault (hio trivial) f)
    | crashes written => exact .goto hheld ⟨nofun, nofun, nofun, nofun⟩
  | accept tmp =>
    cases outcome with
    | completes name => exact .closing h.held (resultOk_acceptExisting (h.accept tmp rfl))
    | raises f written => exact .closing h.held (resultOk_fault (hio trivial) f)
    | crashes written => exact .goto h.held ⟨nofun, nofun, nofun, nofun⟩
  | unlink tmp result =>
    cases outcome with
    | completes name =>
      refine ⟨nofun, nofun, nofun, nofun, fun r left hr => ?_⟩
      cases hr
      exact (h.unlink tmp result rfl).mono (Disk.Extends.refl _)
    | raises f written =>
      refine ⟨hheld, nofun, nofun, nofun, fun r left hr => ?_⟩
      cases hr
      exact resultOk_fault (hio trivial) f
    | crashes written => exact .goto hheld ⟨nofun, nofun, nofun, nofun⟩
  | finished result left => exact h
  | crashed left => exact h

end StoreCall

end PaaRuntime
