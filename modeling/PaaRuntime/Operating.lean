import PaaRuntime.Lib.Checks
import PaaRuntime.Lib.Text
import PaaRuntime.Lib.Value

/-!
# Decoding operating records

`decode_operating_record` and its helpers, over what `json.loads` makes of the bytes. What the
`json` module does is a parameter (`JsonModule`). A text is a sequence of code points, since a JSON
escape may spell out a lone surrogate.
-/

namespace PaaRuntime

/-! ## Exceptions -/

/-- The exceptions that the operating modules, and what they call, could raise. The message of an
`OperatingStoreError` may quote a value, kept here as the value. -/
inductive OperatingException
  | operatingRecordError (message : Text)
  | operatingStoreError (operation : Text) (shown : Option (Value Text)) (error : Text)
  | valueError (message : Text)
  | typeError (message : Text)
  | overflowError (message : Text)
  | recursionError (message : Text)
  | keyError (key : Text)
  | sqliteError (message : Text)

namespace OperatingException

/-- `OperatingRecordError`. -/
def IsRecordError : OperatingException → Prop
  | operatingRecordError _ => True
  | _ => False

/-- `except (ValueError, TypeError, OverflowError, RecursionError)`. -/
def Handled : OperatingException → Prop
  | valueError _ | typeError _ | overflowError _ | recursionError _ => True
  | _ => False

end OperatingException

abbrev Decode := Except OperatingException

/-- What the `json` module does, and the nesting that its recursion has room for. -/
class JsonModule where
  loads : List UInt8 → Decode (Value Text)
  dumps : Value Text → Decode String
  maxDepth : ℕ
  four_le_maxDepth : 4 ≤ maxDepth

namespace Operating

open Pattern

/-! ## Checks of one value -/

/-- `CURRENT_OPERATING_SCHEMA`. -/
def currentOperatingSchema : Text := "paa-operating-record/0.1.0-draft"

/-- `_fail`. -/
def fail {α : Type} (path detail : Text) : Decode α :=
  .error (.operatingRecordError ("decode operating record at " ++ path ++ ": " ++ detail))

/-- `if condition: _fail(path, detail)`. -/
def failIf (condition : Bool) (path detail : Text) : Decode Unit :=
  if condition then fail path detail else .ok ()

/-- `record[key]`. -/
def subscript (record : Members Text) (key : Text) : Decode (Value Text) :=
  match record.get? key with
  | some v => .ok v
  | none => .error (.keyError key)

/-- `_object`. -/
def object (value : Value Text) (path : Text) (required : List Text)
    (optional : List Text := []) : Decode (Members Text) :=
  match value with
  | .dict result =>
    if result.any (!·.1.isText) then fail path "expected an object"
    else if required.any (fun key => (Members.get? result key).isNone) ||
        result.any (fun e => e.1 ∉ (required ++ optional).map Scalar.str) then
      fail path "missing required or unknown fields"
    else .ok result
  | _ => fail path "expected an object"

/-- `_text`. -/
def text (value : Value Text) (path : Text) : Decode Text :=
  match value with
  | .scalar (.str s) => if s = [] then fail path "expected a nonempty string" else .ok s
  | _ => fail path "expected a nonempty string"

/-- `_quantity`. Truth values, infinities and `nan` are no finite numbers. -/
def quantity (value : Value Text) (path : Text) : Decode Unit :=
  match value with
  | .scalar .null => .ok ()
  | .scalar s =>
    match s.number? with
    | some q =>
      if q < 0 then fail path "expected a nonnegative finite number or null" else .ok ()
    | none => fail path "expected a nonnegative finite number or null"
  | _ => fail path "expected a nonnegative finite number or null"

/-- `_price`. -/
def price (value : Value Text) (path : Text) : Decode Unit :=
  match value with
  | .scalar .null => .ok ()
  | _ => do
    let price ← object value path ["currency", "amount", "basis"]
    discard <| text (← subscript price "currency") (path ++ "/currency")
    discard <| text (← subscript price "basis") (path ++ "/basis")
    failIf (← subscript price "amount").isNull (path ++ "/amount")
      "use null price when the amount is unavailable"
    quantity (← subscript price "amount") (path ++ "/amount")

/-! ## Timestamps -/

def digit : Pattern := range '0' '9'

/-- `[01][0-9]|2[0-3]`. -/
def hour : Pattern := oneOf "01" * digit + oneOf "2" * range '0' '3'

/-- `[0-5][0-9]`. -/
def sixtieth : Pattern := range '0' '5' * digit

/-- The pattern of `_timestamp`. -/
def stampPattern : Pattern :=
  digit ^ 4 * oneOf "-" * digit ^ 2 * oneOf "-" * digit ^ 2 * oneOf "Tt" *
    hour * oneOf ":" * sixtieth * oneOf ":" * sixtieth *
    optional (oneOf "." * plus digit) * (oneOf "Zz" + oneOf "+-" * hour * oneOf ":" * sixtieth)

/-- The days of a month in the proleptic Gregorian calendar. -/
def daysInMonth (year month : ℕ) : ℕ :=
  if month = 2 then
    if year % 4 = 0 ∧ (year % 100 ≠ 0 ∨ year % 400 = 0) then 29 else 28
  else if month ∈ [4, 6, 9, 11] then 30 else 31

/-- `datetime.fromisoformat`, of a text that the pattern describes: the calendar must have the day. -/
def fromisoformat (s : Text) : Decode Unit :=
  let year := Text.number (s.take 4)
  let month := Text.number ((s.drop 5).take 2)
  let day := Text.number ((s.drop 8).take 2)
  if year < 1 then .error (.valueError "year 0 is out of range")
  else if month < 1 ∨ 12 < month then .error (.valueError "month must be in 1..12")
  else if day < 1 ∨ daysInMonth year month < day then
    .error (.valueError "day is out of range for month")
  else .ok ()

/-- The call of `datetime.fromisoformat`, with its `ValueError` as a failure at the path. -/
def calendarDay (stamp path : Text) : Decode Unit :=
  match fromisoformat (stamp.upper.replace 'Z' "+00:00") with
  | .error (.valueError error) => fail path error
  | outcome => outcome

/-- `_timestamp`. -/
def timestamp (value : Value Text) (path : Text) : Decode Unit := do
  let stamp ← text value path
  failIf (!fullmatch stampPattern stamp) path "expected an RFC 3339 date-time with timezone"
  calendarDay stamp path

/-! ## The record -/

/-- `re.fullmatch(r"[a-z][a-z0-9_]*", ...)`. -/
def taskPattern : Pattern := range 'a' 'z' * (range 'a' 'z' + range '0' '9' + oneOf "_").star

/-- The check of `task`. -/
def task (value : Value Text) : Decode Unit := do
  failIf (!fullmatch taskPattern (← text value "/task")) "/task" "invalid task identifier"

/-- `int(version) != version`, or the integer. -/
def intOf (f : PyFloat) : Decode (Option ℤ) :=
  match f with
  | .finite q => .ok (if ((q.num.tdiv q.den : ℤ) : ℚ) = q then some (q.num.tdiv q.den) else none)
  | .inf _ => .error (.overflowError "cannot convert float infinity to integer")
  | .nan => .error (.valueError "cannot convert float NaN to integer")

/-- `version < 1`. -/
def lessThanOne : PyFloat → Bool
  | .finite q => q < 1
  | .inf negative => negative
  | .nan => false

/-- The check of `declaration_version`, with the integer that takes its place. -/
def declarationVersion (version : Value Text) : Decode ℤ := do
  quantity version "/declaration_version"
  match version with
  | .scalar (.int i) =>
    if i < 1 then fail "/declaration_version" "expected a positive integer" else .ok i
  | .scalar (.float f) =>
    if lessThanOne f then fail "/declaration_version" "expected a positive integer"
    else
      match ← intOf f with
      | some i => .ok i
      | none => fail "/declaration_version" "expected a positive integer"
  | _ => fail "/declaration_version" "expected a positive integer"

/-- The check of `scope`. -/
def scope (value : Value Text) : Decode Unit :=
  match value with
  | .scalar .null => .ok ()
  | _ => discard <| text value "/scope"

/-- The check of `subject`. -/
def subject (value : Value Text) : Decode Unit := do
  let subject ← object value "/subject" ["kind", "id"]
  failIf ((← subscript subject "kind").text?.all (· ∉ (["case", "run"] : List Text)))
    "/subject/kind" "expected case or run"
  discard <| text (← subscript subject "id") "/subject/id"

/-- Checks of the members of an object, in its order. -/
def eachItem (f : Scalar Text → Value Text → Decode Unit) : Members Text → Decode Unit
  | [] => .ok ()
  | (key, value) :: l => do
    f key value
    eachItem f l

/-- The text of a key; every key is one after `_object`. -/
def keyText : Scalar Text → Text
  | .str s => s
  | _ => []

/-- The check of `worker`. -/
def worker (value : Value Text) : Decode Unit := do
  let worker ← object value "/worker" ["id", "version", "configuration_ref"]
  eachItem (fun key value => discard <| text value ("/worker/" ++ keyText key)) worker

/-- The check of one measure of `usage`. -/
def measure (key : Scalar Text) (value : Value Text) : Decode Unit := do
  let key ← text (.scalar key) "/usage"
  quantity value ("/usage/" ++ key)

/-- The check of `usage`. -/
def usage (value : Value Text) : Decode Unit :=
  match value with
  | .scalar .null => .ok ()
  | .dict (e :: l) => eachItem measure (e :: l)
  | _ => fail "/usage" "expected a nonempty quantity object or null"

/-- The check of one component. -/
def component (index : ℕ) (value : Value Text) : Decode Unit := do
  let path : Text := "/components/" ++ Text.decimal index
  let component ← object value path ["kind", "quantity", "unit", "price"]
  discard <| text (← subscript component "kind") (path ++ "/kind")
  discard <| text (← subscript component "unit") (path ++ "/unit")
  quantity (← subscript component "quantity") (path ++ "/quantity")
  price (← subscript component "price") (path ++ "/price")

/-- The check of `components`, where the record has them. -/
def components (value : Option (Value Text)) : Decode Unit :=
  match value with
  | none => .ok ()
  | some (.list l) => discard <| checkEach component 0 l
  | some _ => fail "/components" "expected an array"

/-- The check of `timestamps`. -/
def timestamps (value : Value Text) : Decode Unit := do
  let timestamps ← object value "/timestamps" ["started_at", "completed_at", "recorded_at"]
  eachItem (fun key value => timestamp value ("/timestamps/" ++ keyText key)) timestamps

/-- The check of `source_references`. -/
def sourceReferences (value : Value Text) : Decode Unit :=
  match value with
  | .list (v :: l) => do
    let strings ← checkEach (fun _ value => text value "/source_references") 0 (v :: l)
    failIf (strings.dedup.length ≠ strings.length)
      "/source_references" "duplicate source references"
  | _ => fail "/source_references" "expected a nonempty array"

/-- The checks of `_decode_operating_record` after the version is replaced. -/
def checkRest (record : Members Text) : Decode Unit := do
  scope (← subscript record "scope")
  subject (← subscript record "subject")
  worker (← subscript record "worker")
  usage (← subscript record "usage")
  price (← subscript record "price") "/price"
  components (record.get? "components")
  timestamps (← subscript record "timestamps")
  sourceReferences (← subscript record "source_references")

/-- `_decode_operating_record`, from the document on. -/
def decodeDocument (document : Value Text) : Decode (Value Text) := do
  let record ← object document "/" ["record_schema", "record_id", "task", "declaration_version",
    "scope", "subject", "worker", "usage", "price", "timestamps", "source_references"]
    ["components"]
  failIf ((← subscript record "record_schema").text? ≠ some currentOperatingSchema)
    "/record_schema" "unsupported schema version"
  discard <| text (← subscript record "record_id") "/record_id"
  task (← subscript record "task")
  let version ← declarationVersion (← subscript record "declaration_version")
  let record := record.set "declaration_version" (.int version)
  checkRest record
  return .dict record

end Operating

/-- `_decode_operating_record`. -/
def _decodeOperatingRecord [JsonModule] (data : List UInt8) : Decode (Value Text) := do
  Operating.decodeDocument (← JsonModule.loads data)

/-- `decode_operating_record`. -/
def decodeOperatingRecord [JsonModule] (data : List UInt8) : Decode (Value Text) :=
  match _decodeOperatingRecord data with
  | .error (.valueError e) | .error (.typeError e) | .error (.overflowError e)
  | .error (.recursionError e) => .error (.operatingRecordError ("decode operating record: " ++ e))
  | outcome => outcome

end PaaRuntime
