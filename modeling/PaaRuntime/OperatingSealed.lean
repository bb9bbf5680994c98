import PaaRuntime.Lib.SealedTable
import PaaRuntime.OperatingLog

/-!
# Operating records are immutable

The table `operating_records` as SQLite keeps it, under any statement of any connection: its three
triggers seal it. The INSERT of `append` is one such statement (`insertRow_exec`).
-/

namespace PaaRuntime

/-- What a column of type `TEXT` keeps besides null: a text, or a blob. -/
inductive SqlText
  | text (s : Text)
  | blob (b : List UInt8)
  deriving DecidableEq

/-- A value for the column `sequence`, its affinity applied: null or none, an integer, or a value that
is no integer. -/
inductive SequenceValue
  | unset
  | integer (i : ℤ)
  | mismatch
  deriving DecidableEq

/-- The values of an INSERT into `operating_records`, with the affinities of the columns applied. -/
structure RecordValues where
  sequence : SequenceValue
  recordId : Option SqlText
  subjectKind : Option SqlText
  subjectId : Option SqlText
  document : Option SqlText

/-- A row of `operating_records`, whichever connection has written it. -/
structure RecordRow where
  sequence : ℤ
  recordId : SqlText
  subjectKind : SqlText
  subjectId : SqlText
  document : SqlText
  deriving DecidableEq

namespace RecordValues

/-- `NOT NULL`. -/
def required {α : Type} (column : String) : Option α → Except String α
  | some a => .ok a
  | none => .error s!"NOT NULL constraint failed: operating_records.{column}"

/-- The row that values are stored as: `NOT NULL` by column, then the `CHECK`. -/
def asRow (v : RecordValues) (sequence : ℤ) : Except String RecordRow := do
  let recordId ← required "record_id" v.recordId
  let subjectKind ← required "subject_kind" v.subjectKind
  let subjectId ← required "subject_id" v.subjectId
  let document ← required "document" v.document
  if subjectKind ≠ .text "case" ∧ subjectKind ≠ .text "run" then
    .error "CHECK constraint failed: subject_kind IN ('case', 'run')"
  else .ok ⟨sequence, recordId, subjectKind, subjectId, document⟩

/-- The integer for `sequence`, or none where it is left to AUTOINCREMENT. -/
def given (v : RecordValues) : Except String (Option ℤ) :=
  match v.sequence with
  | .unset => .ok none
  | .integer i => .ok (some i)
  | .mismatch => .error "datatype mismatch"

theorem asRow_ok {v : RecordValues} {i : ℤ} {row : RecordRow} (h : v.asRow i = .ok row) :
    row.sequence = i ∧ v.recordId = some row.recordId := by
  have hnull : ∀ {column : String} {o : Option SqlText} {a}, required column o = .ok a → o = some a := by
    rintro column (_ | b) a h <;> cases h
    rfl
  obtain ⟨id, hid, h⟩ := except_bind_ok.1 h
  obtain ⟨_, -, h⟩ := except_bind_ok.1 h
  obtain ⟨_, -, h⟩ := except_bind_ok.1 h
  obtain ⟨_, -, h⟩ := except_bind_ok.1 h
  split_ifs at h
  cases h
  exact ⟨rfl, hnull hid⟩

end RecordValues

namespace OperatingStore

/-- AUTOINCREMENT: above the rows that are there and those that have been. -/
def nextSequence (c : Contents RecordRow) : Except String ℤ :=
  let i := (c.rows.map (·.sequence)).foldl max c.counter + 1
  if i ≤ 9223372036854775807 then .ok i else .error "database or disk is full"

/-- The WHEN clause of `operating_records_no_replace`. -/
def exists_ (rows : List RecordRow) (v : RecordValues) (newSequence : ℤ) : Bool :=
  rows.any fun r => some r.recordId = v.recordId || r.sequence = newSequence

theorem le_foldl_max (l : List ℤ) (a : ℤ) :
    a ≤ l.foldl max a ∧ ∀ i ∈ l, i ≤ l.foldl max a := by
  induction l generalizing a with
  | nil => exact ⟨le_refl a, fun i h => absurd h List.not_mem_nil⟩
  | cons b l ih =>
    obtain ⟨hstart, hitems⟩ := ih (max a b)
    exact ⟨(le_max_left a b).trans hstart,
      List.forall_mem_cons.2 ⟨(le_max_right a b).trans hstart, hitems⟩⟩

/-- `operating_records`, with its two uniqueness constraints and its three triggers. -/
def operatingRecords : SealedTable RecordValues String RecordRow where
  rowid := RecordRow.sequence
  given := RecordValues.given
  assign := nextSequence
  asRow := RecordValues.asRow
  keys := [⟨"sequence", fun a b => decide (a.sequence = b.sequence)⟩,
    ⟨"record_id", fun a b => decide (a.recordId = b.recordId)⟩]
  guard := exists_
  assign_fresh := by
    intro c i h r hr
    have hle := (le_foldl_max (c.rows.map (·.sequence)) c.counter).2 r.sequence
      (List.mem_map_of_mem hr)
    unfold nextSequence at h
    dsimp only at h
    split_ifs at h
    cases h
    exact (Int.lt_add_one_of_le hle).ne
  guard_sees := by
    intro rows v i j row r hrow hr hclash hj
    obtain ⟨hsequence, hid⟩ := RecordValues.asRow_ok hrow
    refine List.any_eq_true.2 ⟨r, hr, ?_⟩
    rw [Bool.or_eq_true, decide_eq_true_eq, decide_eq_true_eq, hid, Option.some.injEq]
    simp only [List.any_cons, List.any_nil, Bool.or_false, Bool.or_eq_true, decide_eq_true_eq] at hclash
    rcases hclash with hclash | hclash
    · have hri : r.sequence = i := hclash.symm.trans hsequence
      exact .inr (hri.trans (hj hri).symm)
    · exact .inl hclash.symm

end OperatingStore

/-! ## Tables built by appends -/

/-- A row of an append, as any connection sees it. -/
def OperatingRow.stored (row : OperatingRow) : RecordRow :=
  ⟨row.sequence, .text row.recordId, .text row.subjectKind, .text row.subjectId,
    .text (Text.lit row.document)⟩

def OperatingTable.contents (t : OperatingTable) : Contents RecordRow :=
  ⟨t.rows.map OperatingRow.stored, t.lastSequence⟩

namespace OperatingStore

/-- The parameters of the INSERT of `append`. -/
def appendValues (recordId subjectKind subjectId : Text) (document : String) : RecordValues :=
  ⟨.unset, some (.text recordId), some (.text subjectKind), some (.text subjectId),
    some (.text (Text.lit document))⟩

section

variable {t t' : OperatingTable} {id kind subjectId : Text} {document : String} {recursive : Bool}

theorem contents_concat {row : OperatingRow} {n : ℤ} :
    OperatingTable.contents ⟨t.rows ++ [row], n⟩ = ⟨t.contents.rows ++ [row.stored], n⟩ := by
  rw [OperatingTable.contents, List.map_append]
  rfl

theorem exists_contents (i : ℤ) :
    exists_ t.contents.rows (appendValues id kind subjectId document) i =
      t.rows.any fun r => r.recordId = id || r.sequence = i := by
  rw [Bool.eq_iff_iff]
  simp only [exists_, List.any_eq_true, Bool.or_eq_true, decide_eq_true_eq]
  simp [OperatingTable.contents, appendValues, OperatingRow.stored]

theorem foldl_max_of_le {l : List ℤ} {a : ℤ} (h : ∀ i ∈ l, i ≤ a) : l.foldl max a = a := by
  induction l with
  | nil => rfl
  | cons b l ih =>
    rw [List.forall_mem_cons] at h
    rw [List.foldl_cons, max_eq_left h.1, ih h.2]

/-- Among rows that appends have made the next `sequence` is one more than the last. -/
theorem nextSequence_contents (hb : ∀ row ∈ t.rows, row.sequence ≤ t.lastSequence)
    (hlast : t.lastSequence < 9223372036854775807) :
    nextSequence t.contents = .ok (t.lastSequence + 1) := by
  have hmax : (t.contents.rows.map (·.sequence)).foldl max t.contents.counter = t.lastSequence := by
    refine foldl_max_of_le fun i hi => ?_
    obtain ⟨r, hr, rfl⟩ := List.mem_map.1 hi
    obtain ⟨row, hrow, rfl⟩ := List.mem_map.1 hr
    exact hb row hrow
  unfold nextSequence
  rw [hmax]
  exact if_pos (by omega)

theorem asRow_appendValues (i : ℤ) : (appendValues id kind subjectId document).asRow i =
    if kind ≠ "case" ∧ kind ≠ "run" then
      .error "CHECK constraint failed: subject_kind IN ('case', 'run')"
    else .ok ⟨i, .text id, .text kind, .text subjectId, .text (Text.lit document)⟩ := by
  show (if SqlText.text kind ≠ .text "case" ∧ SqlText.text kind ≠ .text "run" then _ else _) = _
  simp only [ne_eq, SqlText.text.injEq]

theorem exec_insert {v : RecordValues} {c : Contents RecordRow} :
    operatingRecords.exec recursive c (.insert .abort [v]) =
      match operatingRecords.place recursive .abort [] c v with
      | .ok c' => (.ok (), c')
      | .error (.fail, e) => (.error e, c)
      | .error (_, e) => (.error e, c) := by
  show SealedTable.placeAll _ c [v] c = _
  unfold SealedTable.placeAll
  rcases operatingRecords.place recursive .abort [] c v with ⟨policy, e⟩ | c'
  · cases policy <;> rfl
  · rfl

/-- **The INSERT of `append` is a statement of SQL**: it returns with the same table, or fails and
changes nothing. -/
theorem insertRow_exec (hb : ∀ row ∈ t.rows, row.sequence ≤ t.lastSequence)
    (hlast : t.lastSequence < 9223372036854775807) :
    match insertRow t id kind subjectId document with
    | .ok t' => operatingRecords.exec recursive t.contents
        (.insert .abort [appendValues id kind subjectId document]) = (.ok (), t'.contents)
    | .error _ => ∃ e, operatingRecords.exec recursive t.contents
        (.insert .abort [appendValues id kind subjectId document]) = (.error e, t.contents) := by
  have hguard := @exists_contents t id kind subjectId document unsetRowid
  have hgiven : operatingRecords.given (appendValues id kind subjectId document) = .ok none := rfl
  have hnext := nextSequence_contents hb hlast
  have hrow := @asRow_appendValues id kind subjectId document (t.lastSequence + 1)
  rw [exec_insert, insertRow, ← show unsetRowid = unsetSequence from rfl, ← hguard]
  by_cases hexists : exists_ t.contents.rows (appendValues id kind subjectId document) unsetRowid = true
  · rw [if_pos hexists, SealedTable.place_of_guard hgiven hexists]
    exact ⟨_, rfl⟩
  · have hpasses := Bool.eq_false_iff.2 hexists
    rw [if_neg hexists]
    by_cases hkind : kind ≠ "case" ∧ kind ≠ "run"
    · rw [if_pos hkind] at hrow ⊢
      rw [SealedTable.place_of_refused hgiven hpasses hnext hrow]
      exact ⟨_, rfl⟩
    · rw [if_neg hkind] at hrow ⊢
      -- the unique constraint is the guard's first half
      have hnew : ¬ (t.rows.any (·.recordId = id)) = true := by
        intro hany
        obtain ⟨r, hr, hid⟩ := List.any_eq_true.1 hany
        refine hexists (hguard.trans (List.any_eq_true.2 ⟨r, hr, ?_⟩))
        exact Bool.or_eq_true_iff.2 (.inl hid)
      rw [if_neg hnew, SealedTable.place_of_row hgiven hpasses hnext hrow]
      have hcounter : max t.contents.counter (t.lastSequence + 1) = t.lastSequence + 1 :=
        max_eq_right (Int.le_of_lt (Int.lt_succ t.lastSequence))
      rw [hcounter]
      have hconcat := @contents_concat t ⟨t.lastSequence + 1, id, kind, subjectId, document⟩
        (t.lastSequence + 1)
      exact congrArg (Prod.mk (Except.ok ())) hconcat.symm

end

/-- **Operating records are immutable**: after statements of any connections, with delete triggers
fired by `REPLACE` or not, every row of the table is there as it was. -/
theorem records_immutable (t : OperatingTable)
    (changes : List (Bool × Change RecordValues RecordRow)) {row : OperatingRow}
    (hrow : row ∈ t.rows) : row.stored ∈ (operatingRecords.after t.contents changes).rows :=
  SealedTable.after_keeps changes (List.mem_map_of_mem hrow)

/-- A table of one record. -/
def sampleTable : OperatingTable := ⟨[⟨1, "attempt-1", "run", "run-1", "\x7b\x7d"⟩], 1⟩

/-- A replacement through the rowid alone leaves the record. -/
theorem records_immutable_sample :
    OperatingRow.stored ⟨1, "attempt-1", "run", "run-1", "\x7b\x7d"⟩ ∈
      (operatingRecords.after sampleTable.contents [(false, .insert .replace
        [⟨.integer 1, some (.text "other"), some (.text "run"), some (.text "r"),
          some (.text "\x7b\x7d")⟩])]).rows :=
  records_immutable sampleTable _ (List.mem_singleton_self _)

/-- It is refused, as are an UPDATE and a DELETE of every row and a replacement of the record id. -/
example : ([.insert .replace [⟨.integer 1, some (.text "other"), some (.text "run"),
        some (.text "r"), some (.text "\x7b\x7d")⟩],
      .insert .replace [appendValues "attempt-1" "run" "r" "\x7b\x7d"],
      .update .replace (fun _ => true) fun _ => appendValues "other" "run" "r" "\x7b\x7d",
      .delete fun _ => true] : List (Change RecordValues RecordRow)).map (fun change =>
        (operatingRecords.exec false sampleTable.contents change).1.isOk) =
    [false, false, false, false] := by decide +kernel

end OperatingStore

end PaaRuntime
