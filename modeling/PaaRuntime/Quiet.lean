import Mathlib.Data.Stream.Init
import PaaRuntime.AllOrNothing

/-!
# Calls that nothing disturbs

Nothing disturbs a `Quiet` session: no fault is in store and every COMMIT goes through. There a part
of a call whose conditions hold `Completes`: it returns, leaves the world as said and the session
quiet. The specifications of `ServiceSpec` go back from a return to what was found; those of this
module go forward.
-/

namespace PaaRuntime

open Prog

/-- No fault is in store, and every COMMIT goes through. -/
structure Session.Quiet (s : Session) : Prop where
  faults : ∀ n, s.io.faults.get n = none
  commits : ∀ n, s.io.commits.get n = .done

/-- From `s` the program returns `a` in the world `w`, quietly, with `k` event ids drawn. -/
def Completes {α : Type} (k : ℕ) (x : Py α) (s : Session) (a : α) (w : World) : Prop :=
  ∃ s', x s = (.ok a, s') ∧ s'.world = w ∧ s'.Quiet ∧ s'.io.eventIds = s.io.eventIds.drop k

section

variable {α β : Type} {k l : ℕ} {x : Py α} {f : α → Py β} {s : Session} {a : α} {b : β}
  {w w' : World}

/-- A program that completes is followed by one that completes from wherever it leaves. -/
theorem Completes.bind (hx : Completes k x s a w)
    (hf : ∀ s', s'.world = w → s'.Quiet → s'.io.eventIds = s.io.eventIds.drop k →
      Completes l (f a) s' b w') : Completes (k + l) (x >>= f) s b w' := by
  obtain ⟨s₁, h₁, hw₁, hq₁, hids₁⟩ := hx
  obtain ⟨s₂, h₂, hw₂, hq₂, hids₂⟩ := hf s₁ hw₁ hq₁ hids₁
  refine ⟨s₂, bind_ok.2 ⟨a, s₁, h₁, h₂⟩, hw₂, hq₂, ?_⟩
  rw [hids₂, hids₁, Stream'.drop_drop, Nat.add_comm]

/-- A first part that draws no ids. -/
theorem Completes.then (hx : Completes 0 x s a w)
    (hf : ∀ s', s'.world = w → s'.Quiet → s'.io.eventIds = s.io.eventIds →
      Completes l (f a) s' b w') : Completes l (x >>= f) s b w' := by
  have h := hx.bind hf
  rwa [Nat.zero_add] at h

/-- A last part that draws no ids. -/
theorem Completes.last (hx : Completes k x s a w)
    (hf : ∀ s', s'.world = w → s'.Quiet → Completes 0 (f a) s' b w') :
    Completes k (x >>= f) s b w' := hx.bind fun s' hw hq _ => hf s' hw hq

variable (hw : s.world = w) (hq : s.Quiet)

include hw hq

theorem completes_pure (a : α) : Completes 0 (pure a) s a w := ⟨s, rfl, hw, hq, rfl⟩

theorem completes_lift {r : Except PyError α} (hr : r = .ok a) : Completes 0 (liftM r) s a w :=
  ⟨s, by rw [hr]; rfl, hw, hq, rfl⟩

theorem completes_require {p : Prop} [Decidable p] (hp : p) (e : PyError) :
    Completes 0 (liftM (require p e)) s () w := completes_lift hw hq (require_ok.2 hp)

/-- Reading the world. -/
theorem completes_gets (g : World → α) : Completes 0 (gets fun s => g s.world) s (g w) w :=
  ⟨s, by rw [← hw]; rfl, hw, hq, rfl⟩

theorem completes_tick : Completes 0 tick s () w :=
  ⟨_, tick_of_quiet (hq.faults 0), hw, ⟨fun n => hq.faults (n + 1), hq.commits⟩, rfl⟩

theorem completes_query (g : Table → α) : Completes 0 (query g) s (g w.view) w :=
  (completes_tick hw hq).then fun _ hw₁ hq₁ _ => completes_gets hw₁ hq₁ fun w => g w.view

end

/-! ## Readings -/

section

variable {s : Session} {w : World} (hw : s.world = w) (hq : s.Quiet)

include hw hq

theorem completes_loadDeclaration {config : RuntimeConfig} {task : String} {d : PaaTaskDeclaration}
    (hd : getPaaDeclaration config w.directory task = .ok d) :
    Completes 0 (loadDeclaration config task) s d w :=
  (completes_tick hw hq).then fun _ hw₁ hq₁ _ =>
    (completes_gets hw₁ hq₁ World.directory).then fun _ hw₂ hq₂ _ => completes_lift hw₂ hq₂ hd

theorem completes_getLatestPositionChangedEvent {t : Triple} (ht : IsInt64 t.declarationVersion) :
    Completes 0 (getLatestPositionChangedEvent t) s (latestPositionChanged t w.view) w := by
  refine (completes_require hw hq ?_ _).then fun _ hw₁ hq₁ _ => completes_query hw₁ hq₁ _
  rintro _ ⟨⟩
  exact ht

theorem completes_getPositionChangedEventBefore {t : Triple} (ht : IsInt64 t.declarationVersion)
    (createdAt eventId : String) :
    Completes 0 (getPositionChangedEventBefore t createdAt eventId) s
      (positionChangedBefore t (toLex (createdAt, eventId)) w.view) w := by
  refine (completes_require hw hq ?_ _).then fun _ hw₁ hq₁ _ => completes_query hw₁ hq₁ _
  rintro _ ⟨⟩
  exact ht

omit hw hq in
/-- Once its interaction has gone through, seeking the operator changes nothing, found or not. -/
theorem resolveActor_of_tick {s₁ : Session} (h : tick s = (.ok (), s₁)) (explicit : Option String)
    (envVar : String) : ∃ r, resolveActor explicit envVar s = (r, s₁) := by
  unfold resolveActor
  rw [bind_run, h]
  dsimp only
  rw [gets_bind_run]
  rcases Option.filter (fun actor => decide (actor ≠ "")) explicit with _ | actor
  · rcases Option.filter (fun actor => decide (actor ≠ "")) (s₁.io.environ envVar) with _ | actor
    · rcases s₁.io.login with e | actor
      · by_cases he : e.cls = .osError ∨ e.cls = .keyError
        · exact ⟨_, by simp only [if_pos he]; rfl⟩
        · exact ⟨_, by simp only [if_neg he]; rfl⟩
      · exact ⟨_, rfl⟩
    · exact ⟨_, rfl⟩
  · exact ⟨_, rfl⟩

/-- An operator that can be resolved is resolved with nothing else changed. -/
theorem completes_resolveActor {explicit : Option String} {envVar actor : String}
    (h : (resolveActor explicit envVar s).1 = .ok actor) :
    Completes 0 (resolveActor explicit envVar) s actor w := by
  obtain ⟨s₁, h₁, hw₁, hq₁, hids₁⟩ := completes_tick hw hq
  obtain ⟨r, hr⟩ := resolveActor_of_tick h₁ explicit envVar
  rw [hr] at h
  obtain rfl : r = .ok actor := h
  exact ⟨s₁, hr, hw₁, hq₁, hids₁⟩

/-! ## Writing -/

theorem completes_newEventId : Completes 1 newEventId s s.io.eventIds.head w :=
  (completes_tick hw hq).then fun s₁ hw₁ hq₁ hids₁ => by
    rw [← hids₁]
    exact ⟨_, rfl, hw₁, ⟨hq₁.faults, hq₁.commits⟩, rfl⟩

theorem completes_newCreatedAt : ∃ createdAt, Completes 0 newCreatedAt s createdAt w := by
  obtain ⟨s₁, h₁, hw₁, hq₁, hids₁⟩ := completes_tick hw hq
  exact ⟨s₁.io.clock.head, _, bind_ok.2 ⟨(), s₁, h₁, rfl⟩, hw₁, ⟨hq₁.faults, hq₁.commits⟩, hids₁⟩

theorem completes_insertAutonomyEvent {t : Table} {e : AutonomyEvent} (ht : w.working = some t)
    (hlock : w.locked = false) (hfits : Fits t e) :
    Completes 0 (insertAutonomyEvent e.columns) s () (w.setWorking (some (t ++ [e]))) := by
  have hbind : ∀ v ∈ some e.declarationVersion, IsInt64 v := by
    rintro _ ⟨⟩
    exact hfits.version
  have hrow : autonomyEvents.insertRow t e.columns = .ok (t ++ [e]) :=
    GuardedTable.insertRow_ok.2 ⟨e, asRow_ok.2 rfl, violated_eq_none_iff.2 hfits.unique, rfl⟩
  refine (completes_gets hw hq World.working).then fun s₁ hw₁ hq₁ _ => ?_
  rw [ht]
  refine (completes_require hw₁ hq₁ hbind _).then fun s₂ hw₂ hq₂ _ => ?_
  refine (completes_tick hw₂ hq₂).then fun s₃ hw₃ hq₃ _ => ?_
  refine (completes_gets hw₃ hq₃ World.locked).then fun s₄ hw₄ hq₄ _ => ?_
  refine (completes_require hw₄ hq₄ hlock _).then fun s₅ hw₅ hq₅ _ => ?_
  rw [hrow]
  exact ⟨_, rfl, by rw [← hw₅], ⟨hq₅.faults, hq₅.commits⟩, rfl⟩

/-- Recording a row that fits under the next event id, whatever the clock reads. -/
theorem completes_recordEvent {t : Table} {row : String → String → AutonomyEvent}
    (ht : w.working = some t) (hlock : w.locked = false)
    (hfits : ∀ createdAt, Fits t (row s.io.eventIds.head createdAt)) :
    ∃ createdAt, Completes 1 (recordEvent row) s ()
      (w.setWorking (some (t ++ [row s.io.eventIds.head createdAt]))) := by
  obtain ⟨s₁, h₁, hw₁, hq₁, hids₁⟩ := completes_newEventId hw hq
  obtain ⟨createdAt, s₂, h₂, hw₂, hq₂, hids₂⟩ := completes_newCreatedAt hw₁ hq₁
  obtain ⟨s₃, h₃, hw₃, hq₃, hids₃⟩ :=
    completes_insertAutonomyEvent hw₂ hq₂ ht hlock (hfits createdAt)
  refine ⟨createdAt, s₃, ?_, hw₃, hq₃, ?_⟩
  · exact bind_ok.2 ⟨_, s₁, h₁, bind_ok.2 ⟨createdAt, s₂, h₂, h₃⟩⟩
  · rw [hids₃, hids₂, hids₁]
    rfl

/-! ## Contexts -/

theorem completes_begin {immediate : Bool} (hnone : w.working = none) (hlock : w.locked = false) :
    Completes 0 (begin_ immediate) s () (w.setWorking (some w.committed)) := by
  subst hw
  exact ⟨_, begin_of_quiet (hq.faults 0) hnone fun _ => hlock, rfl,
    ⟨fun n => hq.faults (n + 1), hq.commits⟩, rfl⟩

theorem completes_commit : Completes 0 commit s () (w.commitAs w.view) := by
  refine (completes_tick hw hq).then fun s₁ hw₁ hq₁ _ => ?_
  have hdone : s₁.io.commits.head = .done := hq₁.commits 0
  have hdraw : Completes 0 (draw (·.commits) fun c io => { io with commits := c }) s₁ .done w := by
    rw [← hdone]
    exact ⟨_, rfl, hw₁, ⟨hq₁.faults, fun n => hq₁.commits (n + 1)⟩, rfl⟩
  refine hdraw.then fun s₂ hw₂ hq₂ _ => ?_
  rw [← hw₂]
  exact ⟨_, rfl, rfl, ⟨hq₂.faults, hq₂.commits⟩, rfl⟩

omit hw hq in
/-- The body of a context completes, and what it wrote is committed. -/
theorem Completes.closing {α : Type} {k : ℕ} {body : Py α} {a : α} (h : Completes k body s a w) :
    Completes k (closing body) s a (w.commitAs w.view) := by
  obtain ⟨s₁, h₁, hw₁, hq₁, hids₁⟩ := h
  have hbody : Completes k (rollbackOnError body) s a w :=
    ⟨s₁, rollbackOnError_ok.2 h₁, hw₁, hq₁, hids₁⟩
  exact hbody.last fun s₂ hw₂ hq₂ => (completes_commit hw₂ hq₂).last fun s₃ hw₃ hq₃ =>
    completes_pure hw₃ hq₃ a

/-- A block completes whose body does, on the committed table under the write lock. -/
theorem completes_beginImmediate {α : Type} {k : ℕ} {body : Py α} (hnone : w.working = none)
    (hlock : w.locked = false)
    (hbody : ∀ s₀, s₀.world = w.setWorking (some w.committed) → s₀.Quiet →
      s₀.io.eventIds = s.io.eventIds → ∃ a w', Completes k body s₀ a w') :
    ∃ a w', Completes k (beginImmediate body) s a w' := by
  obtain ⟨s₀, h₀, hw₀, hq₀, hids₀⟩ := @completes_begin s w hw hq true hnone hlock
  obtain ⟨a, w', hcompletes⟩ := hbody s₀ hw₀ hq₀ hids₀
  obtain ⟨s₁, h₁, hw₁, hq₁, hids₁⟩ := hcompletes.closing
  refine ⟨a, _, s₁, bind_ok.2 ⟨(), s₀, h₀, h₁⟩, hw₁, hq₁, ?_⟩
  rw [hids₁, hids₀]
  rfl

end

/-! ## Approve and reject -/

/-- A call of `approve` or `reject` that is heard: it has a reason and an operator, it obtains the
write lock, and nothing disturbs it. -/
structure Heard (config : RuntimeConfig) (args : MotionArgs) (s : Session) : Prop where
  quiet : s.Quiet
  closed : s.world.working = none
  unlocked : s.world.locked = false
  reason : args.reason ≠ ""
  actor : ∃ actor, (resolveActor args.actor config.actorEnvVar s).1 = .ok actor

section

variable {config : RuntimeConfig} {args : MotionArgs} {s : Session} {k : ℕ}

theorem Heard.reasonedActor (h : Heard config args s) (purpose : String) :
    ∃ actor, Completes 0 (reasonedActor config purpose args.reason args.actor) s actor s.world := by
  obtain ⟨actor, hactor⟩ := h.actor
  obtain ⟨s₁, h₁, hrest⟩ := completes_resolveActor rfl h.quiet hactor
  refine ⟨actor, s₁, ?_, hrest⟩
  unfold PaaRuntime.reasonedActor
  rw [require_bind_of h.reason]
  exact h₁

/-- `reject` returns where its block does. -/
theorem Heard.reject_returns (h : Heard config args s)
    (hblock : ∀ actor s₀, s₀.world = s.world.setWorking (some s.committed) → s₀.Quiet →
      s₀.io.eventIds = s.io.eventIds → ∃ exit w, Completes k (rejectBlock args actor) s₀ exit w) :
    ∃ m s', reject config args s = (.ok m, s') := by
  obtain ⟨actor, s₁, h₁, hw₁, hq₁, hids₁⟩ := h.reasonedActor "reject a motion"
  obtain ⟨exit, w, s₂, h₂, -⟩ := completes_beginImmediate hw₁ hq₁ h.closed h.unlocked
    fun s₀ hw₀ hq₀ hids₀ => hblock actor s₀ hw₀ hq₀ (hids₀.trans hids₁)
  obtain ⟨m, hm⟩ := rejectBlock_projects h₂
  exact ⟨m, s₂, bind_ok.2 ⟨actor, s₁, h₁, bind_ok.2 ⟨exit, s₂, h₂, liftM_ok.2 ⟨hm, rfl⟩⟩⟩⟩

/-- `approve` returns where its block does. -/
theorem Heard.approve_returns [Hashlib] (h : Heard config args s)
    (hblock : ∀ actor s₀, s₀.world = s.world.setWorking (some s.committed) → s₀.Quiet →
      s₀.io.eventIds = s.io.eventIds →
      ∃ exit w, Completes k (approveBlock config args actor) s₀ exit w) :
    ∃ m s', approve config args s = (.ok m, s') := by
  obtain ⟨actor, s₁, h₁, hw₁, hq₁, hids₁⟩ := h.reasonedActor "approve a motion"
  obtain ⟨exit, w, s₂, h₂, -⟩ := completes_beginImmediate hw₁ hq₁ h.closed h.unlocked
    fun s₀ hw₀ hq₀ hids₀ => hblock actor s₀ hw₀ hq₀ (hids₀.trans hids₁)
  obtain ⟨m, hm⟩ := approveBlock_projects h₂
  exact ⟨m, s₂, bind_ok.2 ⟨actor, s₁, h₁, bind_ok.2 ⟨exit, s₂, h₂, liftM_ok.2 ⟨hm, rfl⟩⟩⟩⟩

end

end PaaRuntime
