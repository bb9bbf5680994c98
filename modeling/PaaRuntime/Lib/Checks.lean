import Mathlib.Data.List.Forall2
import Mathlib.Tactic.Common

/-!
# Checks that may fail

`Except` as a sequence of checks: what a sequence that passes has found, and which errors a sequence
can end in (`FailsOnly`), exactly, in terms of its parts.
-/

namespace PaaRuntime

section

variable {ε α β : Type} {E : ε → Prop} {x : Except ε α} {f : α → Except ε β}

/-- Every error `x` ends in satisfies `E`. -/
def FailsOnly (E : ε → Prop) (x : Except ε α) : Prop := ∀ e, x = .error e → E e

@[simp] theorem failsOnly_ok (a : α) : FailsOnly E (.ok a : Except ε α) := fun _ h => nomatch h

@[simp] theorem failsOnly_pure (a : α) : FailsOnly E (pure a : Except ε α) := fun _ h => nomatch h

@[simp] theorem failsOnly_error {e : ε} : FailsOnly E (.error e : Except ε α) ↔ E e :=
  ⟨fun h => h e rfl, fun h _ he => Except.error.inj he ▸ h⟩

/-- A sequence fails only with `E` exactly when its first part does, and the rest after what the
first part returns. -/
theorem failsOnly_bind :
    FailsOnly E (x >>= f) ↔ FailsOnly E x ∧ ∀ a, x = .ok a → FailsOnly E (f a) := by
  cases x with
  | error e =>
    show FailsOnly E (.error e) ↔ FailsOnly E (.error e) ∧ _
    rw [failsOnly_error, failsOnly_error]
    exact ⟨fun h => ⟨h, fun _ h' => nomatch h'⟩, fun h => h.1⟩
  | ok a =>
    show FailsOnly E (f a) ↔ FailsOnly E (.ok a) ∧ _
    exact ⟨fun h => ⟨failsOnly_ok a, fun _ h' => Except.ok.inj h' ▸ h⟩, fun h => h.2 a rfl⟩

/-- A sequence whose second part fails alike on all results of the first: its own failures count where
the first part passes. -/
theorem failsOnly_seq {C F D : Prop} (hC : FailsOnly E x ↔ C) (hF : (∃ a, x = .ok a) ↔ F)
    (hD : ∀ a, x = .ok a → (FailsOnly E (f a) ↔ D)) : FailsOnly E (x >>= f) ↔ C ∧ (F → D) := by
  rw [failsOnly_bind, hC, ← hF, exists_imp]
  exact and_congr_right fun _ => forall₂_congr hD

/-- A sequence of computations that may raise returns exactly when both parts do. -/
theorem except_bind_ok {b : β} : (x >>= f) = .ok b ↔ ∃ a, x = .ok a ∧ f a = .ok b := by
  cases x <;> simp [bind, Except.bind]

theorem except_pure_ok {a b : α} : (pure a : Except ε α) = .ok b ↔ a = b := by
  simp [pure, Except.pure]

/-- A sequence fails exactly where its first part does, or passes and the second one fails. -/
theorem except_bind_error {e : ε} :
    (x >>= f) = .error e ↔ x = .error e ∨ ∃ a, x = .ok a ∧ f a = .error e := by
  cases x <;> simp [bind, Except.bind]

/-- A computation passes or fails. -/
theorem except_cases (x : Except ε α) : (∃ a, x = .ok a) ∨ ∃ e, x = .error e := by
  cases x with
  | ok a => exact .inl ⟨a, rfl⟩
  | error e => exact .inr ⟨e, rfl⟩

end

/-! ## Decisions -/

section

variable {ε α β : Type} {E : ε → Prop} {x : Except ε α} {f : α → Except ε β} {S T : Prop}

/-- The computation passes exactly when `S` holds, and fails only with `E`. -/
structure Decides (E : ε → Prop) (x : Except ε α) (S : Prop) : Prop where
  passes : (∃ a, x = .ok a) ↔ S
  fails : FailsOnly E x

namespace Decides

theorem congr (h : Decides E x S) (hST : S ↔ T) : Decides E x T := ⟨h.passes.trans hST, h.fails⟩

theorem ok (a : α) : Decides E (.ok a) True := ⟨iff_of_true ⟨a, rfl⟩ trivial, failsOnly_ok a⟩

theorem error {e : ε} (he : E e) : Decides E (.error e : Except ε α) False :=
  ⟨iff_of_false (fun ⟨_, h⟩ => nomatch h) not_false, failsOnly_error.2 he⟩

/-- A sequence decides what its parts decide, the second one after the first one passes. -/
theorem bind (hx : Decides E x S) (hf : ∀ a, x = .ok a → Decides E (f a) T) :
    Decides E (x >>= f) (S ∧ T) := by
  constructor
  · simp only [except_bind_ok]
    constructor
    · rintro ⟨b, a, ha, hb⟩
      exact ⟨hx.passes.1 ⟨a, ha⟩, (hf a ha).passes.1 ⟨b, hb⟩⟩
    · rintro ⟨hS, hT⟩
      obtain ⟨a, ha⟩ := hx.passes.2 hS
      obtain ⟨b, hb⟩ := (hf a ha).passes.2 hT
      exact ⟨b, a, ha, hb⟩
  · exact failsOnly_bind.2 ⟨hx.fails, fun a ha => (hf a ha).fails⟩

theorem discard (hx : Decides E x S) : Decides E (discard x) S := by
  cases x with
  | ok a => exact (ok ()).congr (iff_of_true trivial (hx.passes.1 ⟨a, rfl⟩))
  | error e =>
    exact (error (hx.fails e rfl)).congr
      (iff_of_false not_false fun h => nomatch (hx.passes.2 h).choose_spec)

end Decides

end

/-! ## Along a list -/

section

variable {ε α β : Type} {E : ε → Prop} {f : ℕ → α → Except ε β} {l : List α}

/-- Check each element with its index, from `i` on, and collect the results. -/
def checkEach (f : ℕ → α → Except ε β) : ℕ → List α → Except ε (List β)
  | _, [] => .ok []
  | i, a :: l => do
    let b ← f i a
    let bs ← checkEach f (i + 1) l
    return b :: bs

/-- `C` holds of each element that is reached, where only `F` lets the list go on. -/
def InTurn (F C : α → Prop) : List α → Prop
  | [] => True
  | a :: l => C a ∧ (F a → InTurn F C l)

/-- A list each of whose elements is related to something is related to a list. -/
theorem exists_forall₂ {R : α → β → Prop} (h : ∀ a ∈ l, ∃ b, R a b) :
    ∃ bs, List.Forall₂ R l bs := by
  induction l with
  | nil => exact ⟨[], .nil⟩
  | cons a l ih =>
    obtain ⟨⟨b, hb⟩, hl⟩ := List.forall_mem_cons.1 h
    obtain ⟨bs, hbs⟩ := ih hl
    exact ⟨b :: bs, .cons hb hbs⟩

/-- Related lists are related at each index. -/
theorem forall₂_getElem?_left {R : α → β → Prop} {bs : List β} (h : List.Forall₂ R l bs) {i : ℕ}
    {a : α} (ha : l[i]? = some a) : ∃ b, bs[i]? = some b ∧ R a b := by
  induction h generalizing i with
  | nil => cases ha
  | cons hab _ ih =>
    cases i with
    | zero =>
      cases ha
      exact ⟨_, rfl, hab⟩
    | succ i => exact ih ha

theorem forall₂_mem_left {R : α → β → Prop} {bs : List β} (h : List.Forall₂ R l bs) {a : α}
    (ha : a ∈ l) : ∃ b ∈ bs, R a b := by
  obtain ⟨i, hi⟩ := List.getElem?_of_mem ha
  obtain ⟨b, hb, hR⟩ := forall₂_getElem?_left h hi
  exact ⟨b, List.mem_of_getElem? hb, hR⟩

theorem forall₂_getElem?_right {R : α → β → Prop} {bs : List β} (h : List.Forall₂ R l bs) {i : ℕ}
    {b : β} (hb : bs[i]? = some b) : ∃ a, l[i]? = some a ∧ R a b :=
  forall₂_getElem?_left h.flip hb

/-- Filters that agree on related elements keep lists related. -/
theorem forall₂_filter {R : α → β → Prop} {p : α → Bool} {q : β → Bool} {bs : List β}
    (hpq : ∀ a b, R a b → p a = q b) (h : List.Forall₂ R l bs) :
    List.Forall₂ R (l.filter p) (bs.filter q) := by
  induction h with
  | nil => exact .nil
  | cons hab _ ih =>
    rw [List.filter_cons, List.filter_cons, hpq _ _ hab]
    split_ifs
    · exact .cons hab ih
    · exact ih

/-- What a functional relation makes of a longer list is longer. -/
theorem forall₂_isPrefix {R : α → β → Prop} (hR : ∀ a b c, R a b → R a c → b = c) {l' : List α}
    {bs bs' : List β} (h : List.Forall₂ R l bs) (h' : List.Forall₂ R l' bs') (hl : l <+: l') :
    bs <+: bs' := by
  induction h generalizing l' bs' with
  | nil => exact List.nil_prefix
  | cons hab _ ih =>
    obtain ⟨r, rfl⟩ := hl
    obtain ⟨b', bs'', hab', hrest, rfl⟩ := List.forall₂_cons_left_iff.1 h'
    rw [hR _ _ _ hab hab']
    exact (List.prefix_cons_inj _).2 (ih hrest (List.prefix_append _ r))

/-- Checks along a list return the results element by element. -/
theorem checkEach_ok {R : α → β → Prop} (h : ∀ i a b, f i a = .ok b ↔ R a b) {i : ℕ}
    {bs : List β} : checkEach f i l = .ok bs ↔ List.Forall₂ R l bs := by
  induction l generalizing i bs with
  | nil =>
    rw [checkEach, List.forall₂_nil_left_iff]
    exact ⟨fun h => (Except.ok.inj h).symm, fun h => h ▸ rfl⟩
  | cons a l ih =>
    simp only [checkEach, except_bind_ok, except_pure_ok, h, ih, List.forall₂_cons_left_iff]
    constructor
    · rintro ⟨b, hb, bs', hbs, rfl⟩
      exact ⟨b, bs', hb, hbs, rfl⟩
    · rintro ⟨b, bs', hb, hbs, rfl⟩
      exact ⟨b, hb, bs', hbs, rfl⟩

/-- Checks along a list fail only with `E` where those that are reached do. -/
theorem failsOnly_checkEach {F C : α → Prop} {i : ℕ}
    (hC : ∀ i, ∀ a ∈ l, FailsOnly E (f i a) ↔ C a) (hF : ∀ i, ∀ a ∈ l, (∃ b, f i a = .ok b) ↔ F a) :
    FailsOnly E (checkEach f i l) ↔ InTurn F C l := by
  induction l generalizing i with
  | nil => exact iff_of_true (failsOnly_ok _) trivial
  | cons a l ih =>
    have ih' := @ih (i + 1) (fun i b hb => hC i b (List.mem_cons_of_mem a hb))
      fun i b hb => hF i b (List.mem_cons_of_mem a hb)
    refine failsOnly_seq (hC i a List.mem_cons_self) (hF i a List.mem_cons_self) fun b _ => ?_
    rw [failsOnly_bind, ih']
    exact and_iff_left fun _ _ => failsOnly_pure _

/-- Checks along a list decide what they decide of each element. -/
theorem Decides.checkEach {C : α → Prop} {i : ℕ} (h : ∀ i, ∀ a ∈ l, Decides E (f i a) (C a)) :
    Decides E (checkEach f i l) (∀ a ∈ l, C a) := by
  induction l generalizing i with
  | nil => exact (ok []).congr (by simp)
  | cons a l ih =>
    have hl := fun b (_ : f i a = .ok b) =>
      (@ih (i + 1) fun i b hb => h i b (List.mem_cons_of_mem a hb)).bind
        fun bs _ => Decides.ok (b :: bs)
    exact ((h i a List.mem_cons_self).bind hl).congr (by simp)

end

end PaaRuntime
