import PaaRuntime.EvidencePublish
import PaaRuntime.Session

/-!
# Storing evidence in one call

`store_evidence` as a program of one call, in the order of the source: its directory, the fast path,
the private temporary file, the atomic link, and the `finally` clause. `storeEvidence_reaches` says
that a call of it is a call of the machine of `StoreCall.step`, taken from its first step to its
end.
-/

namespace PaaRuntime

open Prog

/-- How many names `tempfile` tries. -/
def tmpMax : ℕ := 10000

/-- Set the content of a temporary file. -/
def setTemp (tmp : TempName) (content : Option Bytes) : Py Unit :=
  modify fun s => { s with world.disk := s.world.disk.setTemp tmp content }

/-- Draw names until one is free, and create the file. -/
def mkstemp (d : Digest) : ℕ → Py TempName
  | 0 => throw Fault.osError.toError
  | n + 1 => do
    let name ← draw (·.tempNames) fun c io => { io with tempNames := c }
    let disk ← gets (·.world.disk)
    if (disk.temps ⟨d, name⟩).isSome then mkstemp d n
    else do
      setTemp ⟨d, name⟩ (some [])
      return ⟨d, name⟩

/-- Write the temporary file; a failure leaves what has been written. -/
def writeTemp (tmp : TempName) (data : Bytes) : Py Unit := do
  tryCatch tick fun e => do
    let written ← gets (·.io.written)
    setTemp tmp (some (data.take written))
    throw e
  setTemp tmp (some data)

/-- `os.link` to the destination; false when that exists. -/
def link (tmp : TempName) (d : Digest) : Py Bool := do
  tick
  let disk ← gets (·.world.disk)
  if (disk.published d).isSome then return false
  else
    match disk.temps tmp with
    | none => throw ⟨.fileNotFoundError, tmp.name⟩
    | some content => do
      modify fun s => { s with world.disk := s.world.disk.publish d content }
      return true

/-- `_accept_existing` on the disk as it stands. -/
def acceptStored (root : String) (data : Bytes) (d : Digest) : Py (String × String) := do
  tick
  let disk ← gets (·.world.disk)
  acceptExisting root disk data d

/-! ## What the steps leave alone -/

/-- All that a call shares with others but the evidence files. -/
def Session.database (s : Session) : World := { s.world with disk := Disk.empty }

theorem keeps_database_of_world {α : Type} {x : Py α} (h : Keeps Session.world x) :
    Keeps Session.database x := by
  intro s
  unfold Session.database
  rw [h s]

theorem keeps_database_tick : Keeps Session.database tick := keeps_database_of_world keeps_world_tick

theorem keeps_database_mkstemp (d : Digest) : ∀ n, Keeps Session.database (mkstemp d n)
  | 0 => Keeps.throw _
  | n + 1 => by
    refine (keeps_database_of_world (keeps_world_draw _ _)).bind fun name =>
      (Keeps.gets _).bind fun disk => ?_
    split_ifs
    · exact keeps_database_mkstemp d n
    · exact Keeps.bind (fun _ => rfl) fun _ => Keeps.pure _

theorem keeps_database_writeTemp (tmp : TempName) (data : Bytes) :
    Keeps Session.database (writeTemp tmp data) :=
  (keeps_database_tick.tryCatch fun _ => (Keeps.gets _).bind fun _ =>
    Keeps.bind (fun _ => rfl) fun _ => Keeps.throw _).bind fun _ _ => rfl

theorem keeps_database_link (tmp : TempName) (d : Digest) : Keeps Session.database (link tmp d) := by
  refine keeps_database_tick.bind fun _ => (Keeps.gets _).bind fun disk => ?_
  split_ifs
  · exact Keeps.pure _
  · split
    · exact Keeps.throw _
    · exact Keeps.bind (fun _ => rfl) fun _ => Keeps.pure _

theorem keeps_database_acceptStored (root : String) (data : Bytes) (d : Digest) :
    Keeps Session.database (acceptStored root data d) :=
  keeps_database_tick.bind fun _ => (Keeps.gets _).bind fun _ => Keeps.lift _

/-! ## The call -/

variable [Hashlib]

/-- The atomic publish: a lost race becomes the check of the fast path. -/
def linkOrAccept (root : String) (data : Bytes) (tmp : TempName) : Py (String × String) := do
  let d := computeSha256 data
  match ← link tmp d with
  | true => return (evidenceRefFor d.hex, d.hex)
  | false => acceptStored root data d

/-- The body of the `try` of `store_evidence`. -/
def publishTemp (root : String) (data : Bytes) (tmp : TempName) : Py (String × String) := do
  writeTemp tmp data
  linkOrAccept root data tmp

/-- Its `finally` clause. -/
def unlinkTemp (tmp : TempName) : Py Unit := do
  tick
  setTemp tmp none

/-- Publish through a private temporary file. -/
def storeMissing (root : String) (data : Bytes) : Py (String × String) := do
  tick
  let tmp ← mkstemp (computeSha256 data) tmpMax
  (publishTemp root data tmp).ensuring (unlinkTemp tmp)

/-- `store_evidence`. -/
def storeEvidence (root : String) (data : Bytes) : Py (String × String) := do
  let d := computeSha256 data
  tick -- the directory
  tick -- the advisory test
  let disk ← gets (·.world.disk)
  if (disk.published d).isSome then acceptStored root data d else storeMissing root data

/-- `store_evidence` touches nothing but the evidence files. -/
theorem keeps_database_storeEvidence (root : String) (data : Bytes) :
    Keeps Session.database (storeEvidence root data) := by
  refine keeps_database_tick.bind fun _ => keeps_database_tick.bind fun _ =>
    (Keeps.gets _).bind fun disk => ?_
  split_ifs
  · exact keeps_database_acceptStored _ _ _
  · refine keeps_database_tick.bind fun _ => (keeps_database_mkstemp _ _).bind fun tmp => ?_
    refine Keeps.ensuring ((keeps_database_writeTemp _ _).bind fun _ => ?_)
      (keeps_database_tick.bind fun _ _ => rfl)
    refine (keeps_database_link _ _).bind fun linked => ?_
    cases linked
    · exact keeps_database_acceptStored _ _ _
    · exact Keeps.pure _

/-! ## One call as a run of the machine -/

/-- The machine goes from one call beside a disk to another. -/
def Reaches (root : String) (disk : Disk) (call : StoreCall) (disk' : Disk) (call' : StoreCall) :
    Prop :=
  ∃ outcomes : List StepOutcome,
    outcomes.foldl (fun p o => StoreCall.step root o p.1 p.2) (disk, call) = (disk', call')

section

variable {root : String} {disk disk' disk'' : Disk} {call call' call'' : StoreCall}

theorem Reaches.refl : Reaches root disk call disk call := ⟨[], rfl⟩

theorem Reaches.step (outcome : StepOutcome)
    (h : Reaches root (call.step root outcome disk).1 (call.step root outcome disk).2 disk' call') :
    Reaches root disk call disk' call' := by
  obtain ⟨outcomes, h⟩ := h
  exact ⟨outcome :: outcomes, h⟩

theorem Reaches.trans (h : Reaches root disk call disk' call')
    (h' : Reaches root disk' call' disk'' call'') : Reaches root disk call disk'' call'' := by
  obtain ⟨o, h⟩ := h
  obtain ⟨o', h'⟩ := h'
  exact ⟨o ++ o', by rw [List.foldl_append, h, h']⟩

end

/-- The accepting step. -/
theorem acceptStored_reaches (root : String) (data : Bytes) (tmp : Option TempName) (s : Session) :
    Reaches root s.world.disk ⟨data, .accept tmp⟩
      (acceptStored root data (computeSha256 data) s).2.world.disk
      (StoreCall.closing ⟨data, .accept tmp⟩ tmp
        (acceptStored root data (computeSha256 data) s).1) := by
  unfold acceptStored
  rw [bind_run]
  rcases tick_cases s with ⟨s₁, ht, hw⟩ | ⟨f, s₁, ht, hw⟩ <;> simp only [ht]
  · rw [gets_bind_run, monadLift_run, hw]
    exact .step (.completes "") .refl
  · rw [hw]
    exact .step (.raises f 0) .refl

/-- From the link to the end of the `try`. -/
theorem linkOrAccept_reaches (root : String) (data : Bytes) (tmp : TempName) (s : Session) :
    Reaches root s.world.disk ⟨data, .link tmp⟩ (linkOrAccept root data tmp s).2.world.disk
      (StoreCall.closing ⟨data, .link tmp⟩ (some tmp) (linkOrAccept root data tmp s).1) := by
  unfold linkOrAccept link
  simp only [bind_run]
  rcases tick_cases s with ⟨s₁, ht, hw⟩ | ⟨f, s₁, ht, hw⟩ <;> simp only [ht, gets_run]
  · rw [← hw]
    refine .step (.completes "") ?_
    by_cases hp : (s₁.world.disk.published (computeSha256 data)).isSome
    · have haccept := acceptStored_reaches root data (some tmp) s₁
      simp only [StoreCall.step, StoreCall.digest, hp, if_true, pure_run]
      exact haccept
    · rcases hc : s₁.world.disk.temps tmp with _ | content
      · simpa [StoreCall.step, StoreCall.digest, hp, hc] using Reaches.refl
      · simpa [StoreCall.step, StoreCall.digest, hp, hc, StoreCall.success, bind_run]
          using Reaches.refl
  · rw [hw]
    exact .step (.raises f 0) .refl

/-- From the write to the end of the `try`. -/
theorem publishTemp_reaches (root : String) (data : Bytes) (tmp : TempName) (s : Session) :
    Reaches root s.world.disk ⟨data, .write tmp⟩ (publishTemp root data tmp s).2.world.disk
      (StoreCall.closing ⟨data, .write tmp⟩ (some tmp) (publishTemp root data tmp s).1) := by
  unfold publishTemp writeTemp
  simp only [bind_run, tryCatch_run]
  rcases tick_cases s with ⟨s₁, ht, hw⟩ | ⟨f, s₁, ht, hw⟩ <;>
    simp only [ht, gets_run, setTemp, modify_run, throw_run]
  · rw [← hw]
    refine .step (.completes "") ?_
    exact linkOrAccept_reaches root data tmp
      { s₁ with world.disk := s₁.world.disk.setTemp tmp (some data) }
  · rw [← hw]
    exact .step (.raises f s₁.io.written) .refl

/-- The `finally` clause. -/
theorem unlinkTemp_reaches (root : String) (call : StoreCall) (tmp : TempName) (r : StoreResult)
    (s : Session) :
    ∃ left, Reaches root s.world.disk (call.closing (some tmp) r)
      (unlinkTemp tmp s).2.world.disk
      (call.goto (.finished ((unlinkTemp tmp s).1.bind fun _ => r) left)) := by
  unfold unlinkTemp
  rw [bind_run]
  rcases tick_cases s with ⟨s₁, ht, hw⟩ | ⟨f, s₁, ht, hw⟩ <;> simp only [ht]
  · rw [← hw]
    exact ⟨none, .step (.completes "") .refl⟩
  · rw [← hw]
    exact ⟨some tmp, .step (.raises f 0) .refl⟩

/-- Drawing names until one is free. -/
theorem mkstemp_reaches (root : String) (data : Bytes) (n : ℕ) (s : Session) :
    (∃ tmp, (mkstemp (computeSha256 data) n s).1 = .ok tmp ∧
      Reaches root s.world.disk ⟨data, .mkstemp⟩
        (mkstemp (computeSha256 data) n s).2.world.disk ⟨data, .write tmp⟩) ∨
    (∃ f, (mkstemp (computeSha256 data) n s).1 = .error (Fault.toError f) ∧
      (mkstemp (computeSha256 data) n s).2.world = s.world) := by
  induction n generalizing s with
  | zero => exact .inr ⟨.osError, rfl, rfl⟩
  | succ n ih =>
    unfold mkstemp
    rw [bind_run]
    simp only [draw, gets_bind_run]
    by_cases ht : (s.world.disk.temps ⟨computeSha256 data, s.io.tempNames.head⟩).isSome
    · simp only [ht, if_true]
      have := ih { s with io := { s.io with tempNames := s.io.tempNames.tail } }
      rcases this with ⟨tmp, hok, hr⟩ | ⟨f, he, hw⟩
      · refine .inl ⟨tmp, hok, .step (.completes s.io.tempNames.head) ?_⟩
        simpa [StoreCall.step, StoreCall.digest, ht] using hr
      · exact .inr ⟨f, he, hw⟩
    · simp only [ht]
      refine .inl ⟨_, rfl, .step (.completes s.io.tempNames.head) ?_⟩
      simpa [StoreCall.step, StoreCall.digest, ht, StoreCall.goto, setTemp, bind_run]
        using Reaches.refl

/-- The slow path. -/
theorem storeMissing_reaches (root : String) (data : Bytes) (s : Session) :
    ∃ left, Reaches root s.world.disk ⟨data, .mkstemp⟩ (storeMissing root data s).2.world.disk
      ⟨data, .finished (storeMissing root data s).1 left⟩ := by
  unfold storeMissing
  rw [bind_run]
  rcases tick_cases s with ⟨s₁, ht₁, hw₁⟩ | ⟨f, s₁, ht₁, hw₁⟩ <;> simp only [ht₁] <;> rw [← hw₁]
  case inr => exact ⟨none, .step (.raises f 0) .refl⟩
  rw [bind_run]
  rcases mkstemp_reaches root data tmpMax s₁ with ⟨tmp, hok, hr⟩ | ⟨f, he, hw⟩
  · rcases hm : mkstemp (computeSha256 data) tmpMax s₁ with ⟨o, s₂⟩
    simp only [hm] at hok hr ⊢
    subst hok
    have hbody := publishTemp_reaches root data tmp s₂
    obtain ⟨left, hfin⟩ := unlinkTemp_reaches root ⟨data, .write tmp⟩ tmp
      (publishTemp root data tmp s₂).1 (publishTemp root data tmp s₂).2
    refine ⟨left, (hr.trans hbody).trans ?_⟩
    rcases hu : unlinkTemp tmp (publishTemp root data tmp s₂).2 with ⟨e | _, s₃⟩ <;>
      rw [hu] at hfin <;> simp only [ensuring, hu] <;> exact hfin
  · rcases hm : mkstemp (computeSha256 data) tmpMax s₁ with ⟨o, s₂⟩
    simp only [hm] at he hw ⊢
    subst he
    rw [← hw]
    exact ⟨none, .step (.raises f 0) .refl⟩

/-- **A call of `store_evidence` is a call of the machine, from its first step to its end.** -/
theorem storeEvidence_reaches (root : String) (data : Bytes) (s : Session) :
    ∃ left, Reaches root s.world.disk ⟨data, .mkdir⟩ (storeEvidence root data s).2.world.disk
      ⟨data, .finished (storeEvidence root data s).1 left⟩ := by
  unfold storeEvidence
  rw [bind_run]
  rcases tick_cases s with ⟨s₁, ht₁, hw₁⟩ | ⟨f, s₁, ht₁, hw₁⟩ <;> simp only [ht₁] <;> rw [← hw₁]
  case inr => exact ⟨none, .step (.raises f 0) .refl⟩
  rw [bind_run]
  rcases tick_cases s₁ with ⟨s₂, ht₂, hw₂⟩ | ⟨f, s₂, ht₂, hw₂⟩ <;> simp only [ht₂] <;> rw [← hw₂]
  case inr => exact ⟨none, .step (.completes "") (.step (.raises f 0) .refl)⟩
  rw [gets_bind_run]
  by_cases hp : (s₂.world.disk.published (computeSha256 data)).isSome
  · have haccept := acceptStored_reaches root data none s₂
    rw [if_pos hp]
    refine ⟨none, .step (.completes "") ?_⟩
    show Reaches root s₂.world.disk ⟨data, .existsCheck⟩ _ _
    refine .step (.completes "") ?_
    simp only [StoreCall.step, StoreCall.digest, hp, if_true]
    exact haccept
  · obtain ⟨left, hmiss⟩ := storeMissing_reaches root data s₂
    rw [if_neg hp]
    refine ⟨left, .step (.completes "") ?_⟩
    show Reaches root s₂.world.disk ⟨data, .existsCheck⟩ _ _
    refine .step (.completes "") ?_
    simp only [StoreCall.step, StoreCall.digest, hp]
    exact hmiss

end PaaRuntime
