import Mathlib.Algebra.Order.Group.Int
import PaaRuntime.Lib.GuardedTable

/-!
# SQL tables sealed by triggers

A table with a rowid, three of whose triggers raise `ABORT`: `BEFORE UPDATE` and `BEFORE DELETE` on
every row, `BEFORE INSERT` where its guard finds a row in the way. The guard sees the rowid that a
statement gives, and `unsetRowid` in place of one that is left to `AUTOINCREMENT`.

A `SealedTable` carries what makes the guard enough: a rowid that is assigned is fresh, and every row
that clashes with a new one is seen. `exec_keeps` follows for every statement, with delete triggers
fired by `REPLACE` or not, and `after_keeps` for statements one after the other.
-/

namespace PaaRuntime

/-- `NEW.rowid` before an insert that leaves the rowid to `AUTOINCREMENT`. -/
def unsetRowid : ℤ := -1

/-- The rows of a table in the order of insertion, and its row of `sqlite_sequence`. -/
structure Contents (ρ : Type) where
  rows : List ρ
  counter : ℤ

/-- An `ON CONFLICT` clause: its target, unless it has none, and the rows that a `DO UPDATE` is for;
`DO NOTHING` is for none. -/
structure OnConflict (ρ : Type) where
  target : Option String
  where_ : ρ → Bool

/-- A data-change statement. -/
inductive Change (ν ρ : Type)
  | insert (policy : Conflict) (rows : List ν)
  | upsert (clauses : List (OnConflict ρ)) (rows : List ν)
  | update (policy : Conflict) (where_ : ρ → Bool) (set : ρ → ν)
  | delete (where_ : ρ → Bool)

/-- A table sealed by its triggers. -/
structure SealedTable (ν ε ρ : Type) where
  rowid : ρ → ℤ
  /-- The rowid that the values give, or none. -/
  given : ν → Except ε (Option ℤ)
  /-- The rowid that `AUTOINCREMENT` assigns. -/
  assign : Contents ρ → Except ε ℤ
  /-- The row that the values are stored as under a rowid: `NOT NULL`, then `CHECK`. -/
  asRow : ν → ℤ → Except ε ρ
  /-- The rowid and the unique constraints. -/
  keys : List (UniqueKey ρ)
  /-- The condition of the insert trigger, of the values with `NEW.rowid`. -/
  guard : List ρ → ν → ℤ → Bool
  assign_fresh : ∀ {c i}, assign c = .ok i → ∀ r ∈ c.rows, rowid r ≠ i
  /-- A clash is seen, unless it is one of rowids and the trigger sees another rowid. -/
  guard_sees : ∀ {rows v i j row r}, asRow v i = .ok row → r ∈ rows →
    keys.any (·.same row r) = true → (rowid r = i → j = i) → guard rows v j = true

namespace SealedTable

variable {ν ε ρ : Type} (S : SealedTable ν ε ρ)

def clash (a b : ρ) : Bool := S.keys.any (·.same a b)

/-- An error that undoes the statement (`abort`), or is resolved by the statement's policy. -/
abbrev Failure (ε : Type) := Conflict × SqlError ε

/-- Resolve the conflicts of a row with the rows that are there. -/
def settle (recursive : Bool) (policy : Conflict) (clauses : List (OnConflict ρ)) (rows : List ρ)
    (row : ρ) : Except (Failure ε) (List ρ) :=
  match S.keys.find? fun k => rows.any (k.same row) with
  | none => .ok (rows ++ [row])
  | some k =>
    match clauses.find? fun clause => clause.target.all (· = k.name) with
    | some clause =>
      -- a DO UPDATE fires the update trigger
      if rows.any fun r => k.same row r && clause.where_ r then .error (.abort, .raised)
      else .ok rows
    | none =>
      match policy with
      | .ignore => .ok rows
      | .replace =>
        if recursive && rows.any (S.clash row) then .error (.abort, .raised)
        else .ok (rows.filter (fun r => !S.clash row r) ++ [row])
      | _ => .error (policy, .unique k.name)

/-- Place one row of an insert: the insert trigger, the rowid, the constraints, the conflicts. -/
def place (recursive : Bool) (policy : Conflict) (clauses : List (OnConflict ρ)) (c : Contents ρ)
    (v : ν) : Except (Failure ε) (Contents ρ) :=
  match S.given v with
  | .error e => .error (.abort, .column e)
  | .ok o =>
    if S.guard c.rows v (o.getD unsetRowid) then .error (.abort, .raised)
    else
      match o.elim (S.assign c) .ok with
      | .error e => .error (.abort, .column e)
      | .ok i =>
        match S.asRow v i with
        | .error e =>
          match policy with
          | .ignore => .ok ⟨c.rows, max c.counter i⟩
          | .replace => .error (.abort, .column e)
          | _ => .error (policy, .column e)
        | .ok row =>
          match S.settle recursive policy clauses c.rows row with
          | .error e => .error e
          | .ok rows => .ok ⟨rows, max c.counter i⟩

/-- Place rows in turn; `FAIL` keeps the rows that are placed, the other failures keep none. -/
def placeAll (place : Contents ρ → ν → Except (Failure ε) (Contents ρ)) (start : Contents ρ) :
    List ν → Contents ρ → Except (SqlError ε) Unit × Contents ρ
  | [], c => (.ok (), c)
  | v :: vs, c =>
    match place c v with
    | .ok c' => placeAll place start vs c'
    | .error (.fail, e) => (.error e, c)
    | .error (_, e) => (.error e, start)

/-- Execute a statement on a committed table. -/
def exec (recursive : Bool) (c : Contents ρ) :
    Change ν ρ → Except (SqlError ε) Unit × Contents ρ
  | .insert policy rows => placeAll (S.place recursive policy []) c rows c
  | .upsert clauses rows => placeAll (S.place recursive .abort clauses) c rows c
  | .update _ where_ _ => (if c.rows.any where_ then .error .raised else .ok (), c)
  | .delete where_ => (if c.rows.any where_ then .error .raised else .ok (), c)

/-- Statements of any connections, one after the other. -/
def after (c : Contents ρ) (changes : List (Bool × Change ν ρ)) : Contents ρ :=
  changes.foldl (fun c change => (S.exec change.1 c change.2).2) c

/-! ## Every row is kept -/

variable {S} {recursive : Bool} {policy : Conflict} {clauses : List (OnConflict ρ)}
  {c c' : Contents ρ} {rows rows' : List ρ} {v : ν} {row r : ρ}

/-- A row that clashes with none is appended. -/
theorem settle_of_free (h : ∀ r ∈ rows, S.clash row r = false) :
    S.settle recursive policy clauses rows row = .ok (rows ++ [row]) := by
  have hnone : S.keys.find? (fun k => rows.any (k.same row)) = none := by
    rw [List.find?_eq_none]
    intro k hk hany
    obtain ⟨r, hr, hsame⟩ := List.any_eq_true.1 hany
    have hfree := List.any_eq_false.1 (h r hr) k hk
    exact hfree hsame
  unfold settle
  rw [hnone]

/-- Where the guard lets a row pass, none is in its way. -/
theorem free_of_guard {o : Option ℤ} {i : ℤ} (hguard : S.guard c.rows v (o.getD unsetRowid) = false)
    (hi : o.elim (S.assign c) .ok = .ok i) (hrow : S.asRow v i = .ok row) :
    ∀ r ∈ c.rows, S.clash row r = false := by
  intro r hr
  by_contra hclash
  rw [Bool.not_eq_false] at hclash
  have hseen : S.rowid r = i → o.getD unsetRowid = i := by
    cases o with
    | none => exact fun hrowid => absurd hrowid (S.assign_fresh hi r hr)
    | some j => exact fun _ => Except.ok.inj hi
  rw [S.guard_sees hrow hr hclash hseen] at hguard
  cases hguard

/-! What becomes of a row whose rowid is `i`: the guard refuses it, a constraint of its own does, or it
is appended. -/

theorem place_of_guard {o : Option ℤ} (ho : S.given v = .ok o)
    (hguard : S.guard c.rows v (o.getD unsetRowid) = true) :
    S.place recursive policy clauses c v = .error (.abort, .raised) := by
  unfold place
  rw [ho]
  exact if_pos hguard

theorem place_of_refused {o : Option ℤ} {i : ℤ} {e : ε} (ho : S.given v = .ok o)
    (hguard : S.guard c.rows v (o.getD unsetRowid) = false) (hi : o.elim (S.assign c) .ok = .ok i)
    (hrow : S.asRow v i = .error e) :
    S.place recursive .abort clauses c v = .error (.abort, .column e) := by
  unfold place
  rw [ho]
  dsimp only
  rw [if_neg (by rw [hguard]; exact Bool.false_ne_true), hi]
  dsimp only
  rw [hrow]

theorem place_of_row {o : Option ℤ} {i : ℤ} (ho : S.given v = .ok o)
    (hguard : S.guard c.rows v (o.getD unsetRowid) = false) (hi : o.elim (S.assign c) .ok = .ok i)
    (hrow : S.asRow v i = .ok row) :
    S.place recursive policy clauses c v = .ok ⟨c.rows ++ [row], max c.counter i⟩ := by
  unfold place
  rw [ho]
  dsimp only
  rw [if_neg (by rw [hguard]; exact Bool.false_ne_true), hi]
  dsimp only
  rw [hrow]
  dsimp only
  rw [settle_of_free (free_of_guard hguard hi hrow)]

/-- **A row is placed** at the end of the table, or skipped. -/
theorem place_ok (h : S.place recursive policy clauses c v = .ok c') :
    c'.rows = c.rows ∨ ∃ row, c'.rows = c.rows ++ [row] := by
  unfold place at h
  split at h
  · cases h
  · next o _ =>
    split_ifs at h with hguard
    rw [Bool.not_eq_true] at hguard
    split at h
    · cases h
    · next i hi =>
      split at h
      · split at h <;> cases h
        exact .inl rfl
      · next row hrow =>
        rw [settle_of_free (free_of_guard hguard hi hrow)] at h
        cases h
        exact .inr ⟨row, rfl⟩

theorem placeAll_keeps {place : Contents ρ → ν → Except (Failure ε) (Contents ρ)}
    {start : Contents ρ} (hplace : ∀ {c c' v}, place c v = .ok c' → r ∈ c.rows → r ∈ c'.rows)
    (hstart : r ∈ start.rows) :
    ∀ (vs : List ν) (c : Contents ρ), r ∈ c.rows → r ∈ (placeAll place start vs c).2.rows
  | [], _, hr => hr
  | v :: vs, c, hr => by
    unfold placeAll
    split
    · next c' h => exact placeAll_keeps hplace hstart vs c' (hplace h hr)
    · exact hr
    · exact hstart

/-- **Every statement keeps every row.** -/
theorem exec_keeps (change : Change ν ρ) (hr : r ∈ c.rows) :
    r ∈ (S.exec recursive c change).2.rows := by
  have hplace : ∀ {policy clauses c c' v}, S.place recursive policy clauses c v = .ok c' →
      r ∈ c.rows → r ∈ c'.rows := fun h hr => by
    rcases place_ok h with hsame | ⟨row, hrows⟩
    · exact hsame ▸ hr
    · exact hrows ▸ List.mem_append_left _ hr
  cases change with
  | insert policy rows => exact placeAll_keeps hplace hr rows c hr
  | upsert clauses rows => exact placeAll_keeps hplace hr rows c hr
  | update policy where_ set => exact hr
  | delete where_ => exact hr

theorem after_keeps (changes : List (Bool × Change ν ρ)) (hr : r ∈ c.rows) :
    r ∈ (S.after c changes).rows := by
  induction changes generalizing c with
  | nil => exact hr
  | cons change changes ih => exact ih (exec_keeps change.2 hr)

end SealedTable

end PaaRuntime
