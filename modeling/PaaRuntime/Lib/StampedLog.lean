import Mathlib.Data.List.MinMax
import Mathlib.Data.List.Sort
import Mathlib.Data.Set.Function
import Mathlib.Tactic.Common

/-!
# Logs whose rows carry a stamp

A log is a list of rows in the order they were appended; `f` gives each row a stamp in a linear
order. `latest f l` is the row with the greatest stamp, `before f l k` the greatest row strictly
below the stamp `k`, `inOrder f l` the rows by increasing stamp. Stamps need not follow the
order of appending.

1. Over pairwise distinct stamps the three do not depend on the order of the log (`*_perm`).
2. Where stamps increase along the log, `latest` is the last row and `before` cuts the log at its
   point (`latest_of_increasing`, `before_of_increasing`).
3. Two stampings give the same `latest` and `before` exactly when they order the rows alike
   (`before_agree_iff`).
4. `Grown P l`: every row of the log satisfies `P` beside the rows appended before it.
-/

namespace PaaRuntime.StampedLog

variable {α κ μ : Type}

/-- Distinct rows of the log have distinct stamps. -/
def Distinct (f : α → κ) (l : List α) : Prop := Set.InjOn f {a | a ∈ l}

theorem Distinct.mono {f : α → κ} {l l' : List α} (h : Distinct f l) (hs : ∀ a ∈ l', a ∈ l) :
    Distinct f l' := Set.InjOn.mono (fun a ha => hs a ha) h

theorem Distinct.filter {f : α → κ} {l : List α} (h : Distinct f l) (p : α → Bool) :
    Distinct f (l.filter p) := h.mono fun _ ha => List.mem_of_mem_filter ha

theorem Distinct.of_perm {f : α → κ} {l l' : List α} (h : Distinct f l) (hp : l.Perm l') :
    Distinct f l' := h.mono fun _ ha => hp.mem_iff.2 ha

variable [LinearOrder κ] [LinearOrder μ]

/-- The row with the greatest stamp. -/
def latest (f : α → κ) (l : List α) : Option α := l.argmax f

/-- The row with the greatest stamp strictly below `k`. -/
def before (f : α → κ) (l : List α) (k : κ) : Option α := latest f (l.filter (f · < k))

/-- The rows by increasing stamp. -/
def inOrder (f : α → κ) (l : List α) : List α := l.insertionSort (f · ≤ f ·)

section

variable {f : α → κ} {l l' : List α} {a m q : α}

/-! ## The latest row -/

@[simp] theorem latest_nil : latest f ([] : List α) = none := rfl

theorem latest_eq_none : latest f l = none ↔ l = [] := List.argmax_eq_none

theorem latest_mem (h : latest f l = some m) : m ∈ l := List.argmax_mem h

theorem le_latest (h : latest f l = some m) (ha : a ∈ l) : f a ≤ f m := List.le_of_mem_argmax ha h

/-- Over distinct stamps the latest row is the one that no row exceeds. -/
theorem latest_eq_some_iff (hd : Distinct f l) :
    latest f l = some m ↔ m ∈ l ∧ ∀ a ∈ l, f a ≤ f m := by
  refine ⟨fun h => ⟨latest_mem h, fun a => le_latest h⟩, fun ⟨hm, hle⟩ => ?_⟩
  rcases h : latest f l with _ | n
  · rw [latest_eq_none] at h
    simp [h] at hm
  · have hn := latest_mem h
    rw [hd hn hm (le_antisymm (hle n hn) (le_latest h hm))]

/-- Appending a row: it is the latest exactly when it exceeds the latest so far. -/
theorem latest_concat (f : α → κ) (l : List α) (a : α) :
    latest f (l ++ [a]) = match latest f l with
      | none => some a
      | some c => if f c < f a then some a else some c := by
  unfold latest
  rw [List.argmax_concat]
  rcases List.argmax f l with _ | c <;> rfl

/-- Rows that some row before them exceeds leave the latest row as it is. -/
theorem latest_append_of_exceeded (h : ∀ b ∈ l', ∃ a ∈ l, f b < f a) :
    latest f (l ++ l') = latest f l := by
  induction l' using List.reverseRecOn with
  | nil => rw [List.append_nil]
  | append_singleton l' b ih =>
    obtain ⟨a, ha, hba⟩ := h b (List.mem_append_right l' (List.mem_singleton_self b))
    rw [← List.append_assoc, latest_concat, ih fun c hc => h c (List.mem_append_left [b] hc)]
    rcases hm : latest f l with _ | m
    · rw [latest_eq_none] at hm
      rw [hm] at ha
      exact absurd ha List.not_mem_nil
    · exact if_neg (hba.trans_le (le_latest hm ha)).not_gt

theorem latest_perm (hd : Distinct f l) (hp : l.Perm l') : latest f l = latest f l' := by
  rcases h : latest f l' with _ | m
  · rw [latest_eq_none] at h ⊢
    exact List.perm_nil.1 (h ▸ hp)
  · rw [latest_eq_some_iff (hd.of_perm hp)] at h
    rw [latest_eq_some_iff hd]
    exact ⟨hp.mem_iff.2 h.1, fun a ha => h.2 a (hp.mem_iff.1 ha)⟩

theorem before_perm (hd : Distinct f l) (hp : l.Perm l') (k : κ) : before f l k = before f l' k :=
  latest_perm (hd.filter _) (hp.filter _)

theorem inOrder_perm_self (f : α → κ) (l : List α) : (inOrder f l).Perm l :=
  List.perm_insertionSort _ l

theorem mem_inOrder : a ∈ inOrder f l ↔ a ∈ l := (inOrder_perm_self f l).mem_iff

theorem inOrder_pairwise (f : α → κ) (l : List α) : (inOrder f l).Pairwise (f · ≤ f ·) := by
  have : IsTrans α (fun a b => f a ≤ f b) := ⟨fun _ _ _ => le_trans⟩
  have : Std.Total (fun a b : α => f a ≤ f b) := ⟨fun a b => le_total (f a) (f b)⟩
  exact List.pairwise_insertionSort _ l

/-- Over distinct stamps the ordered log does not depend on the order of appending. -/
theorem inOrder_perm (hd : Distinct f l) (hp : l.Perm l') : inOrder f l = inOrder f l' := by
  have hp' : (inOrder f l).Perm (inOrder f l') :=
    (inOrder_perm_self f l).trans (hp.trans (inOrder_perm_self f l').symm)
  refine hp'.eq_of_pairwise ?_ (inOrder_pairwise f l) (inOrder_pairwise f l')
  intro a b ha hb hab hba
  have hb' : b ∈ l := hp.mem_iff.2 (mem_inOrder.1 hb)
  exact hd (mem_inOrder.1 ha) hb' (le_antisymm hab hba)

/-! ## Reading in order -/

/-- The latest row is the last one in order. -/
theorem latest_eq_getLast?_inOrder (hd : Distinct f l) :
    latest f l = (inOrder f l).getLast? := by
  rcases h : (inOrder f l).getLast? with _ | m
  · rw [List.getLast?_eq_none_iff] at h
    rw [latest_eq_none]
    exact List.perm_nil.1 (h ▸ (inOrder_perm_self f l).symm)
  · obtain ⟨below, hlog⟩ := List.getLast?_eq_some_iff.1 h
    rw [latest_eq_some_iff hd]
    refine ⟨mem_inOrder.1 (List.mem_of_getLast? h), fun a ha => ?_⟩
    have hpair := inOrder_pairwise f l
    rw [hlog, List.pairwise_append] at hpair
    rw [← mem_inOrder (f := f), hlog, List.mem_append, List.mem_singleton] at ha
    rcases ha with ha | rfl
    · exact hpair.2.2 a ha m (List.mem_singleton_self m)
    · exact le_rfl

/-- The latest row is the first one in descending order. -/
theorem latest_eq_head?_descending (hd : Distinct f l) :
    latest f l = (l.insertionSort fun a b => f b ≤ f a).head? := by
  have : IsTrans α (fun a b => f b ≤ f a) := ⟨fun _ _ _ hab hbc => le_trans hbc hab⟩
  have : Std.Total (fun a b : α => f b ≤ f a) := ⟨fun a b => le_total (f b) (f a)⟩
  have hpair := List.pairwise_insertionSort (fun a b => f b ≤ f a) l
  have hmem : ∀ a, a ∈ l.insertionSort (fun a b => f b ≤ f a) ↔ a ∈ l := fun a =>
    List.mem_insertionSort _
  rcases h : l.insertionSort (fun a b => f b ≤ f a) with _ | ⟨m, below⟩
  · rw [List.head?_nil, latest_eq_none, List.eq_nil_iff_forall_not_mem]
    intro a ha
    rw [← hmem, h] at ha
    exact List.not_mem_nil ha
  · rw [h, List.pairwise_cons] at hpair
    rw [List.head?_cons, latest_eq_some_iff hd]
    refine ⟨(hmem m).1 (h ▸ List.mem_cons_self), fun a ha => ?_⟩
    rw [← hmem, h, List.mem_cons] at ha
    rcases ha with rfl | ha
    · exact le_rfl
    · exact hpair.1 a ha

/-- Over distinct stamps, selecting rows and ordering them commute. -/
theorem filter_inOrder (hd : Distinct f l) (p : α → Bool) :
    (inOrder f l).filter p = inOrder f (l.filter p) := by
  have hperm : ((inOrder f l).filter p).Perm (inOrder f (l.filter p)) :=
    ((inOrder_perm_self f l).filter p).trans (inOrder_perm_self f _).symm
  refine hperm.eq_of_pairwise ?_ ((inOrder_pairwise f l).filter p) (inOrder_pairwise f _)
  intro a b ha hb hab hba
  have hal : a ∈ l := mem_inOrder.1 (List.mem_of_mem_filter ha)
  have hbl : b ∈ l := List.mem_of_mem_filter (mem_inOrder.1 hb)
  exact hd hal hbl (le_antisymm hab hba)

/-- A log reads back as it was appended exactly when its stamps never decrease. -/
theorem inOrder_eq_self_iff : inOrder f l = l ↔ l.Pairwise (f · ≤ f ·) := by
  constructor
  · intro h
    rw [← h]
    exact inOrder_pairwise f l
  · exact List.Pairwise.insertionSort_eq

/-- The latest row is also the latest below `k` exactly when no row is at `k` or above. -/
theorem latest_eq_before_iff {k : κ} : latest f l = before f l k ↔ ∀ a ∈ l, f a < k := by
  constructor
  · intro h a ha
    rcases hm : latest f l with _ | m
    · rw [latest_eq_none] at hm
      simp [hm] at ha
    · have hmk := (List.mem_filter.1 (latest_mem (h ▸ hm : before f l k = some m))).2
      exact (le_latest hm ha).trans_lt (by simpa using hmk)
  · intro h
    unfold before
    rw [List.filter_eq_self.2 fun a ha => by simpa using h a ha]

/-! ## Increasing stamps -/

/-- Along increasing stamps the latest row is the last one. -/
theorem latest_of_increasing (h : l.Pairwise (f · < f ·)) : latest f l = l.getLast? := by
  induction l using List.reverseRecOn with
  | nil => rfl
  | append_singleton l a ih =>
    rw [List.pairwise_append] at h
    rw [latest_concat, ih h.1, List.getLast?_concat]
    rcases hc : l.getLast? with _ | c
    · rfl
    · simp [h.2.2 c (List.mem_of_getLast? hc) a (List.mem_singleton_self a)]

/-- Along increasing stamps, the rows below a row are those appended before it. -/
theorem filter_lt_of_increasing {l₁ l₂ : List α} (h : (l₁ ++ q :: l₂).Pairwise (f · < f ·)) :
    (l₁ ++ q :: l₂).filter (f · < f q) = l₁ := by
  rw [List.pairwise_append, List.pairwise_cons] at h
  obtain ⟨-, ⟨hq, -⟩, h₁⟩ := h
  rw [List.filter_append, List.filter_cons]
  have hl₁ : l₁.filter (f · < f q) = l₁ :=
    List.filter_eq_self.2 fun a ha => by simp [h₁ a ha q List.mem_cons_self]
  have hl₂ : l₂.filter (f · < f q) = [] :=
    List.filter_eq_nil_iff.2 fun a ha => by simp [(hq a ha).le]
  simp [hl₁, hl₂]

theorem before_of_increasing {l₁ l₂ : List α} (h : (l₁ ++ q :: l₂).Pairwise (f · < f ·)) :
    before f (l₁ ++ q :: l₂) (f q) = l₁.getLast? := by
  unfold before
  rw [filter_lt_of_increasing h]
  exact latest_of_increasing (List.pairwise_append.1 h).1

end

/-! ## Two stampings of one log -/

section TwoStampings

variable {f : α → κ} {g : α → μ} {l : List α} {q : Set (κ × μ)}

theorem latest_agree (hf : Distinct f l) (hg : Distinct g l)
    (h : ∀ a ∈ l, ∀ b ∈ l, f a < f b ↔ g a < g b) : latest f l = latest g l := by
  rcases hm : latest g l with _ | m
  · rw [latest_eq_none] at hm ⊢
    exact hm
  · rw [latest_eq_some_iff hg] at hm
    rw [latest_eq_some_iff hf]
    refine ⟨hm.1, fun a ha => ?_⟩
    have := hm.2 a ha
    rw [← not_lt] at this ⊢
    rwa [h m hm.1 a ha]

/-- The rows strictly below a point are the greatest of them and the rows below that one. -/
theorem lt_iff_of_before (hd : Distinct f l) {k : κ} {m a : α} (h : before f l k = some m)
    (ha : a ∈ l) :
    f a < k ↔ a = m ∨ f a < f m := by
  have hm := List.mem_filter.1 (latest_mem h)
  have hmk : f m < k := by simpa using hm.2
  constructor
  · intro hak
    have hle := le_latest h (List.mem_filter.2 ⟨ha, by simpa using hak⟩)
    rcases hle.eq_or_lt with he | hlt
    · exact Or.inl (hd ha hm.1 he)
    · exact Or.inr hlt
  · rintro (rfl | hlt)
    · exact hmk
    · exact hlt.trans hmk

/-- If the rows before every point agree, so do the two orders below every point. -/
theorem lt_agree_of_before (hf : Distinct f l) (hg : Distinct g l) (hlq : ∀ a ∈ l, (f a, g a) ∈ q)
    (h : ∀ p ∈ q, before f l p.1 = before g l p.2) :
    ∀ (n : ℕ) (p : κ × μ), p ∈ q → (l.filter (f · < p.1)).length = n →
      ∀ a ∈ l, f a < p.1 ↔ g a < p.2 := by
  -- by induction on the number of rows below the point: the greatest of them is a smaller point
  intro n
  induction n using Nat.strong_induction_on with
  | _ n ih =>
    intro p hp hn a ha
    rcases hm : before f l p.1 with _ | m
    · have hm' := h p hp ▸ hm
      rw [before, latest_eq_none, List.filter_eq_nil_iff] at hm hm'
      have h₁ := hm a ha
      have h₂ := hm' a ha
      simp only [decide_eq_true_eq] at h₁ h₂
      exact iff_of_false h₁ h₂
    · have hm' := h p hp ▸ hm
      have hml := List.mem_filter.1 (latest_mem hm)
      have hmp : f m < p.1 := by simpa using hml.2
      have hlt : (l.filter (f · < f m)).length < n := by
        have hsub : l.filter (f · < f m) = (l.filter (f · < p.1)).filter (f · < f m) := by
          rw [List.filter_filter]
          exact List.filter_congr fun b _ => by simpa using (lt_trans · hmp)
        rw [← hn, hsub, List.length_filter_lt_length_iff_exists]
        exact ⟨m, latest_mem hm, by simp⟩
      have hbelow := ih _ hlt (f m, g m) (hlq m hml.1) rfl a ha
      rw [lt_iff_of_before hf hm ha, lt_iff_of_before hg hm' ha]
      exact or_congr_right hbelow

/-- Two stampings agree on the latest row and on the row before every point of `q`, the rows' own
stamps among them, exactly when they order every row and every point alike. -/
theorem before_agree_iff (hf : Distinct f l) (hg : Distinct g l) (hlq : ∀ a ∈ l, (f a, g a) ∈ q) :
    (latest f l = latest g l ∧ ∀ p ∈ q, before f l p.1 = before g l p.2) ↔
      ∀ a ∈ l, ∀ p ∈ q, f a < p.1 ↔ g a < p.2 := by
  constructor
  · rintro ⟨-, h⟩ a ha p hp
    exact lt_agree_of_before hf hg hlq h _ p hp rfl a ha
  · intro h
    refine ⟨latest_agree hf hg fun a ha b hb => h a ha (f b, g b) (hlq b hb), fun p hp => ?_⟩
    have hfil : l.filter (f · < p.1) = l.filter (g · < p.2) :=
      List.filter_congr fun a ha => by simp [h a ha p hp]
    unfold before
    rw [hfil]
    refine latest_agree (hf.filter _) (hg.filter _) fun a ha b hb => ?_
    exact h a (List.mem_of_mem_filter ha) (f b, g b) (hlq b (List.mem_of_mem_filter hb))

end TwoStampings

/-! ## Logs row by row -/

section Grown

variable {P Q : List α → α → Prop} {l l' : List α} {a : α}

/-- Every row satisfies `P` beside the rows appended before it. -/
def Grown (P : List α → α → Prop) (l : List α) : Prop := ∀ l₁ a l₂, l = l₁ ++ a :: l₂ → P l₁ a

theorem grown_nil (P : List α → α → Prop) : Grown P [] := by
  intro l₁ a l₂ h
  simp at h

theorem grown_concat : Grown P (l ++ [a]) ↔ Grown P l ∧ P l a := by
  constructor
  · refine fun h => ⟨fun l₁ b l₂ hl => h l₁ b (l₂ ++ [a]) ?_, h l a [] rfl⟩
    rw [hl, List.append_assoc, List.cons_append]
  · rintro ⟨h, ha⟩ l₁ b l₂ hl
    rcases List.eq_nil_or_concat l₂ with rfl | ⟨l₃, c, rfl⟩
    · obtain ⟨rfl, hab⟩ := List.append_inj' hl rfl
      obtain rfl : a = b := by simpa using hab
      exact ha
    · rw [List.concat_eq_append, ← List.cons_append, ← List.append_assoc] at hl
      exact h l₁ b l₃ (List.append_inj' hl rfl).1

theorem Grown.of_append (h : Grown P (l ++ l')) : Grown P l := by
  intro l₁ a l₂ hl
  exact h l₁ a (l₂ ++ l') (by rw [hl, List.append_assoc, List.cons_append])

theorem Grown.mono (h : Grown P l) (hPQ : ∀ l a, P l a → Q l a) : Grown Q l :=
  fun l₁ a l₂ hl => hPQ l₁ a (h l₁ a l₂ hl)

/-- Rows that each clash with none before them are pairwise free of clashes. -/
theorem Grown.pairwise {R : α → α → Prop} (h : Grown (fun l a => ∀ b ∈ l, R b a) l) :
    l.Pairwise R := by
  induction l using List.reverseRecOn with
  | nil => exact .nil
  | append_singleton l a ih =>
    rw [grown_concat] at h
    rw [List.pairwise_append]
    exact ⟨ih h.1, List.pairwise_singleton R a, fun b hb c hc => List.mem_singleton.1 hc ▸ h.2 b hb⟩

end Grown

end PaaRuntime.StampedLog
