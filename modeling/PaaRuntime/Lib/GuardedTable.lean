import Mathlib.Data.List.Basic
import Mathlib.Tactic.Common

/-!
# SQL tables guarded by triggers

A table whose `BEFORE UPDATE` and `BEFORE DELETE` triggers raise `ABORT`, under the data-change
statements of SQLite. A statement gives values `ν`; `asRow` stores them as a row `ρ` or reports a
violated column constraint `ε`; two rows clash when they agree on a unique key.

Conflict resolution follows SQLite: `ABORT` undoes the statement, `ROLLBACK` the transaction,
`FAIL` keeps the rows already put, `IGNORE` skips the row, and `REPLACE` deletes the rows in
the way, firing their delete triggers only under `recursive_triggers`. A violated key with a
`DO UPDATE` comes first, one left to `REPLACE` last. A column violation under `REPLACE`, and a trigger
that raises under any policy, act as `ABORT`.

`exec_keeps_iff` says which statements keep the content of every row: all but a `REPLACE` that goes
through and puts a row in the way of an old one whose content no row that it puts restores.
-/

namespace PaaRuntime

/-- The policy of a write that meets a constraint violation. -/
inductive Conflict
  | abort | rollback | fail | ignore | replace
  deriving DecidableEq, Repr

/-- A uniqueness constraint: its name, and whether two rows agree on it. -/
structure UniqueKey (ρ : Type) where
  name : String
  same : ρ → ρ → Bool

/-- Why a statement fails. -/
inductive SqlError (ε : Type)
  | column (e : ε)
  | unique (key : String)
  | raised
  deriving DecidableEq, Repr

/-- An `ON CONFLICT` clause: the key it is for, unless it is for every one, and the rows that its
`DO UPDATE` is for, unless it is a `DO NOTHING`. -/
structure ConflictClause (ρ : Type) where
  target : Option String
  doUpdate : Option (ρ → Bool)

/-- A data-change statement. -/
inductive Statement (ν ρ : Type)
  | insert (policy : Conflict) (clauses : List (ConflictClause ρ)) (rows : List ν)
  | update (policy : Conflict) (where_ : ρ → Bool) (set : ρ → ν)
  | delete (where_ : ρ → Bool)

/-- A table with unique keys whose update and delete triggers raise `ABORT`. -/
structure GuardedTable (ν ε ρ : Type) where
  asRow : ν → Except ε ρ
  keys : List (UniqueKey ρ)

namespace GuardedTable

variable {ν ε ρ κ : Type} (S : GuardedTable ν ε ρ)

/-- Two rows agree on some unique key. -/
def clash (a b : ρ) : Bool := S.keys.any (·.same a b)

/-- The first unique key that the row would violate. -/
def violated (t : List ρ) (row : ρ) : Option (UniqueKey ρ) :=
  S.keys.find? fun k => t.any (k.same row)

/-- Insert one row under `ABORT`: the plain `INSERT`. -/
def insertRow (t : List ρ) (v : ν) : Except (SqlError ε) (List ρ) :=
  match S.asRow v with
  | .error e => .error (.column e)
  | .ok row =>
    match S.violated t row with
    | some k => .error (.unique k.name)
    | none => .ok (t ++ [row])

/-- Remove the rows in the way of a new one and append it. -/
def replaceRow (t : List ρ) (row : ρ) : List ρ := t.filter (fun r => !S.clash row r) ++ [row]

/-- A failure, with the policy that says what becomes of the statement. -/
abbrev Failure (ε : Type) := Conflict × SqlError ε

/-- The clause that a violated key falls under. -/
def clauseOf (clauses : List (ConflictClause ρ)) (k : UniqueKey ρ) : Option (ConflictClause ρ) :=
  clauses.find? fun clause => clause.target.all (· = k.name)

/-- The rows that the clause of a violated key updates. -/
def updates (clauses : List (ConflictClause ρ)) (k : UniqueKey ρ) : Option (ρ → Bool) :=
  (clauseOf clauses k).bind (·.doUpdate)

/-- What becomes of one row of an insert: it is put, the rows in its way deleted, or skipped. -/
def place (recursive : Bool) (policy : Conflict) (clauses : List (ConflictClause ρ)) (t : List ρ)
    (v : ν) : Except (Failure ε) (Option ρ) :=
  match S.asRow v with
  | .error e =>
    match policy with
    | .ignore => .ok none
    | .replace => .error (.abort, .column e)
    | _ => .error (policy, .column e)
  | .ok row =>
    let violated := S.keys.filter fun k => t.any (k.same row)
    match violated.find? fun k => (updates clauses k).isSome with
    | some k =>
      if t.any fun r => k.same row r && (updates clauses k).any (· r) then .error (.abort, .raised)
      else .ok none
    | none =>
      match violated.find? fun k => (clauseOf clauses k).isSome || policy ≠ .replace with
      | some k =>
        if (clauseOf clauses k).isSome || policy = .ignore then .ok none
        else .error (policy, .unique k.name)
      | none =>
        -- the delete triggers of the rows in the way fire only under recursive_triggers
        if recursive && t.any (S.clash row) then .error (.abort, .raised) else .ok (some row)

/-- The rows that an insert puts in turn, and the failure that ends it. -/
def putRows (recursive : Bool) (policy : Conflict) (clauses : List (ConflictClause ρ)) :
    List ν → List ρ → List ρ × Option (Failure ε)
  | [], _ => ([], none)
  | v :: vs, t =>
    match S.place recursive policy clauses t v with
    | .error e => ([], some e)
    | .ok none => putRows recursive policy clauses vs t
    | .ok (some row) =>
      (row :: (putRows recursive policy clauses vs (S.replaceRow t row)).1,
        (putRows recursive policy clauses vs (S.replaceRow t row)).2)

/-- What an insert leaves of a committed table: only `FAIL` keeps rows that were put before a failure. -/
def finish (t : List ρ) : List ρ × Option (Failure ε) → Except (SqlError ε) Unit × List ρ
  | (put, none) => (.ok (), put.foldl S.replaceRow t)
  | (put, some (.fail, e)) => (.error e, put.foldl S.replaceRow t)
  | (_, some (_, e)) => (.error e, t)

/-- Execute a statement on a committed table. -/
def exec (recursive : Bool) (t : List ρ) : Statement ν ρ → Except (SqlError ε) Unit × List ρ
  | .insert policy clauses rows => S.finish t (S.putRows recursive policy clauses rows t)
  | .update _ where_ _ => (if t.any where_ then .error .raised else .ok (), t)
  | .delete where_ => (if t.any where_ then .error .raised else .ok (), t)

/-- The content of every row is still there. -/
def Kept (f : ρ → κ) (t t' : List ρ) : Prop := ∀ r ∈ t, ∃ r' ∈ t', f r' = f r

/-- The content of a row outlasts the rows that are put: no row of it stands in their way, or one of
them restores it and no later one is in its way. -/
def Outlasts (f : ρ → κ) (t put : List ρ) (r : ρ) : Prop :=
  (∃ r' ∈ t, f r' = f r ∧ ∀ n ∈ put, S.clash n r' = false) ∨
    ∃ before n after, put = before ++ n :: after ∧ f n = f r ∧ ∀ m ∈ after, S.clash m n = false

/-! ## One row -/

variable {S} {t t' put : List ρ} {v : ν} {row r : ρ} {recursive : Bool} {policy : Conflict}
  {clauses : List (ConflictClause ρ)} {rows : List ν}

theorem insertRow_ok :
    S.insertRow t v = .ok t' ↔
      ∃ row, S.asRow v = .ok row ∧ S.violated t row = none ∧ t' = t ++ [row] := by
  unfold insertRow
  rcases S.asRow v with e | row
  · simp
  · rcases hv : S.violated t row with _ | k
    · simp [hv, eq_comm]
    · simp [hv]

theorem violated_eq_none : S.violated t row = none ↔ ∀ r ∈ t, S.clash row r = false := by
  simp only [violated, clash, List.find?_eq_none, List.any_eq_true, List.any_eq_false]
  exact ⟨fun h r hr k hk hs => h k hk ⟨r, hr, hs⟩, fun h k hk ⟨r, hr, hs⟩ => h r hr k hk hs⟩

/-- Whether a row is refused does not depend on the order of the table. -/
theorem violated_perm (hp : t.Perm t') : S.violated t row = S.violated t' row := by
  unfold violated
  congr 1
  funext k
  exact hp.any_eq

theorem mem_replaceRow : r ∈ S.replaceRow t row ↔ r ∈ t ∧ S.clash row r = false ∨ r = row := by
  simp [replaceRow]

/-- Every policy but `REPLACE` puts only rows that clash with none. -/
theorem place_free (hpolicy : policy ≠ .replace)
    (h : S.place recursive policy clauses t v = .ok (some row)) :
    ∀ r ∈ t, S.clash row r = false := by
  unfold place at h
  split at h
  · split at h <;> cases h
  · next row' hrow =>
    simp only at h
    split at h
    · split_ifs at h
      cases h
    · split at h
      · split_ifs at h
        cases h
      · next hnone =>
        split_ifs at h
        cases h
        intro r hr
        rw [Bool.eq_false_iff]
        intro hclash
        obtain ⟨k, hk, hsame⟩ := List.any_eq_true.1 hclash
        have hviolated : k ∈ S.keys.filter fun k => t.any (k.same row) :=
          List.mem_filter.2 ⟨hk, List.any_eq_true.2 ⟨r, hr, hsame⟩⟩
        have hfound := List.find?_eq_none.1 hnone k hviolated
        exact hfound (by simp [hpolicy])

/-- `REPLACE` fails only by `ABORT`. -/
theorem place_replace_error {e : Failure ε}
    (h : S.place recursive .replace clauses t v = .error e) : e.1 = .abort := by
  unfold place at h
  split at h
  · cases h
    rfl
  · simp only at h
    split at h
    · split_ifs at h
      cases h
      rfl
    · split at h
      · next k hk =>
        have hclause := List.find?_some hk
        simp only [ne_eq, not_true_eq_false, decide_false, Bool.or_false] at hclause
        rw [hclause, Bool.true_or, if_pos rfl] at h
        cases h
      · split_ifs at h
        cases h
        rfl

/-! ## Whole statements -/

theorem putRows_keeps (hpolicy : policy ≠ .replace) (hr : r ∈ t) :
    r ∈ (S.putRows recursive policy clauses rows t).1.foldl S.replaceRow t := by
  induction rows generalizing t with
  | nil => exact hr
  | cons v rows ih =>
    unfold putRows
    split
    · exact hr
    · exact ih hr
    · next row hplace =>
      exact ih (mem_replaceRow.2 (.inl ⟨hr, place_free hpolicy hplace r hr⟩))

theorem putRows_replace_error {e : Failure ε}
    (h : (S.putRows recursive .replace clauses rows t).2 = some e) : e.1 = .abort := by
  induction rows generalizing t with
  | nil => cases h
  | cons v rows ih =>
    unfold putRows at h
    split at h
    · next e' hplace =>
      cases h
      exact place_replace_error hplace
    · exact ih h
    · exact ih h

/-- After putting row after row, a row is there that was and clashes with none of them, or is one of
them and clashes with no later one. -/
theorem mem_foldl_replaceRow : r ∈ put.foldl S.replaceRow t ↔
    (r ∈ t ∧ ∀ n ∈ put, S.clash n r = false) ∨
      ∃ before after, put = before ++ r :: after ∧ ∀ m ∈ after, S.clash m r = false := by
  induction put generalizing t with
  | nil => simp
  | cons n put ih =>
    rw [List.foldl_cons, ih, mem_replaceRow, List.forall_mem_cons]
    constructor
    · rintro (⟨⟨hr, hn⟩ | rfl, hput⟩ | ⟨before, after, rfl, hafter⟩)
      · exact .inl ⟨hr, hn, hput⟩
      · exact .inr ⟨[], put, rfl, hput⟩
      · exact .inr ⟨n :: before, after, rfl, hafter⟩
    · rintro (⟨hr, hn, hput⟩ | ⟨before, after, heq, hafter⟩)
      · exact .inl ⟨.inl ⟨hr, hn⟩, hput⟩
      · cases before with
        | nil =>
          obtain ⟨rfl, rfl⟩ := List.cons.inj heq
          exact .inl ⟨.inr rfl, hafter⟩
        | cons m before =>
          obtain ⟨rfl, rfl⟩ := List.cons.inj heq
          exact .inr ⟨before, after, rfl, hafter⟩

theorem outlasts_iff {f : ρ → κ} :
    (∃ r' ∈ put.foldl S.replaceRow t, f r' = f r) ↔ S.Outlasts f t put r := by
  constructor
  · rintro ⟨r', hr', hf⟩
    rcases mem_foldl_replaceRow.1 hr' with ⟨ht, hfree⟩ | ⟨before, after, hput, hafter⟩
    · exact .inl ⟨r', ht, hf, hfree⟩
    · exact .inr ⟨before, r', after, hput, hf, hafter⟩
  · rintro (⟨r', ht, hf, hfree⟩ | ⟨before, n, after, hput, hf, hafter⟩)
    · exact ⟨r', mem_foldl_replaceRow.2 (.inl ⟨ht, hfree⟩), hf⟩
    · exact ⟨n, mem_foldl_replaceRow.2 (.inr ⟨before, after, hput, hafter⟩), hf⟩

/-- **Which statements keep the content of every row.** -/
theorem exec_keeps_iff (f : ρ → κ) (stmt : Statement ν ρ) :
    Kept f t (S.exec recursive t stmt).2 ↔
      ∀ clauses rows put, stmt = .insert .replace clauses rows →
        S.putRows recursive .replace clauses rows t = (put, none) → ∀ r ∈ t, S.Outlasts f t put r := by
  have hsame : Kept f t t := fun r hr => ⟨r, hr, rfl⟩
  cases stmt with
  | update policy where_ set =>
    refine iff_of_true hsame ?_
    rintro _ _ _ ⟨⟩
  | delete where_ =>
    refine iff_of_true hsame ?_
    rintro _ _ _ ⟨⟩
  | insert policy clauses rows =>
    by_cases hpolicy : policy = .replace
    · subst hpolicy
      show Kept f t (S.finish t (S.putRows recursive .replace clauses rows t)).2 ↔ _
      rcases hrun : S.putRows recursive .replace clauses rows t with ⟨put, _ | ⟨outcome, e⟩⟩
      · constructor
        · rintro h _ _ _ ⟨⟩ hput r hr
          rw [hrun] at hput
          cases hput
          exact outlasts_iff.1 (h r hr)
        · intro h r hr
          exact outlasts_iff.2 (h clauses rows put rfl hrun r hr)
      · have habort : outcome = .abort := by
          apply putRows_replace_error (e := (outcome, e))
          rw [hrun]
        subst habort
        refine iff_of_true hsame ?_
        rintro _ _ _ ⟨⟩ hput
        rw [hrun] at hput
        cases hput
    · have hkept : Kept f t ((S.putRows recursive policy clauses rows t).1.foldl S.replaceRow t) :=
        fun r hr => ⟨r, putRows_keeps hpolicy hr, rfl⟩
      have hexec : Kept f t (S.exec recursive t (.insert policy clauses rows)).2 := by
        show Kept f t (S.finish t (S.putRows recursive policy clauses rows t)).2
        rcases hrun : S.putRows recursive policy clauses rows t with ⟨put, _ | ⟨outcome, e⟩⟩
        · rw [hrun] at hkept
          exact hkept
        · rw [hrun] at hkept
          cases outcome with
          | fail => exact hkept
          | _ => exact hsame
      refine iff_of_true hexec ?_
      rintro _ _ _ ⟨⟩
      exact absurd rfl hpolicy

/-- The plain `INSERT` of one row is a statement. -/
theorem exec_insertRow : S.exec recursive t (.insert .abort [] [v]) =
    match S.insertRow t v with
    | .ok t' => (.ok (), t')
    | .error e => (.error e, t) := by
  show S.finish t (S.putRows recursive .abort [] [v] t) = _
  unfold putRows place insertRow
  cases S.asRow v with
  | error e => rfl
  | ok row =>
    have hfind : (S.keys.filter fun k => t.any (k.same row)).find?
        (fun k => (clauseOf [] k).isSome || Conflict.abort ≠ .replace) = S.violated t row := by
      rw [List.find?_filter]
      simp [violated, -List.any_eq_true]
    have hupdates : (S.keys.filter fun k => t.any (k.same row)).find?
        (fun k => (updates [] k).isSome) = none := List.find?_eq_none.2 fun k _ => Bool.false_ne_true
    simp only [hupdates, hfind]
    cases hviolated : S.violated t row with
    | some k => rfl
    | none =>
      have hfree := violated_eq_none.1 hviolated
      have hany : (recursive && t.any (S.clash row)) = false := by
        rw [Bool.and_eq_false_iff, List.any_eq_false]
        exact .inr fun r hr => by rw [hfree r hr]; exact Bool.false_ne_true
      have hfilter : t.filter (fun r => !S.clash row r) = t :=
        List.filter_eq_self.2 fun r hr => by rw [hfree r hr]; rfl
      simp only [hany, Bool.false_eq_true, if_false]
      show (Except.ok (), S.replaceRow t row) = _
      rw [replaceRow, hfilter]

end GuardedTable

end PaaRuntime
