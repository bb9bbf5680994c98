import Mathlib.Data.List.Sort
import PaaRuntime.Operating

/-!
# The operating record store

The table `operating_records` with its constraints and its trigger, and the calls of
`SqliteOperatingRecordStore` on it. Each call is one step: an append is one transaction, a lookup one
SELECT, and opening a store creates the table unless it is there.
-/

namespace PaaRuntime

/-- A row of `operating_records`. -/
structure OperatingRow where
  sequence : ℤ
  recordId : Text
  subjectKind : Text
  subjectId : Text
  document : String
  deriving DecidableEq

/-- The table: its rows in the order of insertion, and the largest `sequence` ever given out. -/
structure OperatingTable where
  rows : List OperatingRow
  lastSequence : ℤ

/-- A database file; there is no table before a store has been opened on it. -/
abbrev OperatingDatabase := Option OperatingTable

/-- `RecordSubject`. -/
structure RecordSubject where
  kind : Text
  id : Text

namespace OperatingStore

/-! ## The table -/

/-- `NEW.sequence` in a trigger before an INSERT that leaves it to AUTOINCREMENT. -/
def unsetSequence : ℤ := -1

/-- `CREATE TABLE IF NOT EXISTS`. -/
def createTable (db : OperatingDatabase) : OperatingTable := db.getD ⟨[], 0⟩

/-- The INSERT of `append`: the trigger `operating_records_no_replace`, the CHECK, the unique
constraint, and a row with the next `sequence`. -/
def insertRow (t : OperatingTable) (recordId subjectKind subjectId : Text) (document : String) :
    Decode OperatingTable :=
  if t.rows.any fun r => r.recordId = recordId || r.sequence = unsetSequence then
    .error (.sqliteError "operating_records record already exists")
  else if subjectKind ≠ "case" ∧ subjectKind ≠ "run" then
    .error (.sqliteError "CHECK constraint failed: subject_kind IN ('case', 'run')")
  else if t.rows.any (·.recordId = recordId) then
    .error (.sqliteError "UNIQUE constraint failed: operating_records.record_id")
  else
    .ok ⟨t.rows ++ [⟨t.lastSequence + 1, recordId, subjectKind, subjectId, document⟩],
      t.lastSequence + 1⟩

/-- `SELECT document ... WHERE subject_kind = ? AND subject_id = ? ORDER BY sequence`. -/
def selectDocuments (t : OperatingTable) (kind id : Text) : List String :=
  ((t.rows.filter fun r => r.subjectKind = kind ∧ r.subjectId = id).insertionSort
    (·.sequence ≤ ·.sequence)).map (·.document)

/-! ## Calls -/

/-- A text as a parameter of a statement: UTF-8 must encode it. -/
def bindText (s : Text) : Decode Text :=
  if s.Encodable then .ok s
  else .error (.valueError "'utf-8' codec can't encode characters: surrogates not allowed")

/-- `value[key]`. -/
def field (value : Value Text) (key : Text) : Decode (Value Text) :=
  match value with
  | .dict m => Operating.subscript m key
  | _ => .error (.typeError "object is not subscriptable")

/-- A member of a decoded record as a parameter; the decoder has left texts there. -/
def bindField (value : Value Text) : Decode Text :=
  match value with
  | .scalar (.str s) => bindText s
  | _ => .error (.sqliteError "Error binding parameter: type is not supported")

/-- `document.encode("utf-8")`. -/
def encodeUtf8 (document : String) : List UInt8 := document.toUTF8.data.toList

variable [JsonModule]

/-- The part of `append` before the transaction: the document, and what the decoder makes of it. -/
def serialize (record : Value Text) : Decode (String × Value Text) :=
  match JsonModule.dumps record with
  | .error (.valueError e) | .error (.typeError e) | .error (.recursionError e) =>
    .error (.operatingStoreError "serialize operating record" none e)
  | .error e => .error e
  | .ok document => do
    let checked ← decodeOperatingRecord (encodeUtf8 document)
    return (document, checked)

/-- The transaction of `append`. -/
def insertRecord (document : String) (checked : Value Text) (db : OperatingDatabase) :
    Decode OperatingTable := do
  let recordId ← bindField (← field checked "record_id")
  let kind ← bindField (← field (← field checked "subject") "kind")
  let id ← bindField (← field (← field checked "subject") "id")
  match db with
  | some t => insertRow t recordId kind id document
  | none => .error (.sqliteError "no such table: operating_records")

/-- `append`: the outcome, and the database afterwards. A transaction that fails is rolled back. -/
def append (record : Value Text) (db : OperatingDatabase) : Decode Unit × OperatingDatabase :=
  match serialize record with
  | .error e => (.error e, db)
  | .ok (document, checked) =>
    match insertRecord document checked db with
    | .error (.sqliteError e) =>
      (.error (.operatingStoreError "append operating record" (checked.member "record_id") e), db)
    | .error e => (.error e, db)
    | .ok t => (.ok (), some t)

/-- `get_by_subject`. -/
def getBySubject (subject : RecordSubject) (db : OperatingDatabase) : Decode (List (Value Text)) := do
  let kind ← bindText subject.kind
  let id ← bindText subject.id
  match db with
  | some t =>
    checkEach (fun _ document => decodeOperatingRecord (encodeUtf8 document)) 0
      (selectDocuments t kind id)
  | none =>
    .error (.operatingStoreError "read operating subject"
      (some (.dict [(.str "kind", .str subject.kind), (.str "id", .str subject.id)]))
      "no such table: operating_records")

/-! ## Runs -/

/-- A call of a store, through one of any number of connections. -/
inductive Call
  | connect (i : ℕ)
  | append (i : ℕ) (record : Value Text)
  | getBySubject (i : ℕ) (subject : RecordSubject)

/-- What a sequence of calls leads to: the database, the open connections, and the records whose
append has returned, in order. -/
structure State where
  db : OperatingDatabase
  connected : ℕ → Bool
  appended : List (Value Text)

/-- A database on which no store has been opened. -/
def State.initial : State := ⟨none, fun _ => false, []⟩

/-- The state after one more call. -/
def next (s : State) : Call → State
  | .connect i => ⟨some (createTable s.db), Function.update s.connected i true, s.appended⟩
  | .append _ record =>
    match append record s.db with
    | (.ok (), db) => ⟨db, s.connected, s.appended ++ [record]⟩
    | (.error _, db) => ⟨db, s.connected, s.appended⟩
  | .getBySubject _ _ => s

end OperatingStore

end PaaRuntime
