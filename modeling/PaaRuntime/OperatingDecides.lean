import PaaRuntime.OperatingSpec

/-!
# The operating decoder decides its published schema

On the bytes of a JSON document, `decode_operating_record` succeeds exactly where the document is
valid, returns it with an integral version as an integer, and raises `OperatingRecordError` only.
-/

namespace PaaRuntime

variable {v r : Value Text} {data : List UInt8}

/-- `r` is the document with the number under `declaration_version` as an integer. -/
def VersionNormalized (v r : Value Text) : Prop :=
  ∃ (m : Members Text) (s : Scalar Text) (n : ℤ), v = .dict m ∧
    m.get? "declaration_version" = some (.scalar s) ∧ s.number? = some (n : ℚ) ∧
      r = .dict (m.set "declaration_version" (.int n))

/-- The integer is determined by the number. -/
theorem versionNormalized_unique {r' : Value Text} (h : VersionNormalized v r)
    (h' : VersionNormalized v r') : r = r' := by
  obtain ⟨m, s, n, rfl, hs, hn, rfl⟩ := h
  obtain ⟨m', s', n', hm, hs', hn', rfl⟩ := h'
  cases hm
  cases hs.symm.trans hs'
  have hnn : (n : ℚ) = n' := Option.some.inj (hn.symm.trans hn')
  rw [Rat.intCast_inj.1 hnn]

/-- What a successful decoding returns. -/
theorem Operating.decodeDocument_normalizes (h : Operating.decodeDocument v = .ok r) :
    VersionNormalized v r := by
  unfold Operating.decodeDocument at h
  simp only [except_bind_ok, except_pure_ok] at h
  obtain ⟨m, hm, _, -, _, -, _, -, _, -, _, -, _, -, x, hx, n, hn, _, -, rfl⟩ := h
  obtain ⟨s, rfl, hs, -⟩ := Operating.declarationVersion_ok.1 hn
  exact ⟨m, s, n, (Operating.object_ok.1 hm).1, Operating.subscript_ok.1 hx, hs, rfl⟩

section

variable [JsonModule]

/-- The data are a JSON text of the document: `json.loads` reads it, unless it is nested deeper than
the recursion has room for. -/
def ReadsAs (data : List UInt8) (v : Value Text) : Prop :=
  JsonModule.loads data = .ok v ∨
    JsonModule.maxDepth < v.depth ∧ ∃ e, JsonModule.loads data = .error (.recursionError e)

/-- A call that decodes a document has the outcome of its checks. -/
theorem decodeOperatingRecord_of_loads (h : JsonModule.loads data = .ok v) (hv : v.isJson = true) :
    decodeOperatingRecord data = Operating.decodeDocument v := by
  have hinner : _decodeOperatingRecord data = Operating.decodeDocument v := by
    unfold _decodeOperatingRecord
    rw [h]
    rfl
  have hfails := (Operating.decodeDocument_checks hv).fails
  unfold decodeOperatingRecord
  rw [hinner]
  rcases houtcome : Operating.decodeDocument v with e | r
  · -- the only exception is not handled again
    have hown : e.IsRecordError := hfails e houtcome
    cases e <;> first | rfl | exact False.elim hown
  · rfl

/-- **The decoder and the published schema agree.** -/
theorem decodeOperatingRecord_agrees (hdata : ReadsAs data v) (hv : v.isJson = true) :
    ((∃ r, decodeOperatingRecord data = .ok r) ↔ operatingSchema v = true) ∧
      (∀ r, decodeOperatingRecord data = .ok r → VersionNormalized v r) ∧
      ∀ e, decodeOperatingRecord data = .error e → e.IsRecordError := by
  rcases hdata with h | ⟨hdeep, e, h⟩
  · have hchecks := Operating.decodeDocument_checks hv
    rw [decodeOperatingRecord_of_loads h hv]
    exact ⟨hchecks.passes, fun r hr => Operating.decodeDocument_normalizes hr, hchecks.fails⟩
  · have houtcome : decodeOperatingRecord data =
        .error (.operatingRecordError ("decode operating record: " ++ e)) := by
      unfold decodeOperatingRecord _decodeOperatingRecord
      rw [h]
      rfl
    rw [houtcome]
    refine ⟨iff_of_false (by simp) fun hvalid => ?_, by simp, fun e h => ?_⟩
    · -- a valid document is not nested that deep
      have hdepth := OperatingSchema.operatingSchema_depthLe v hv hvalid
      have hroom := JsonModule.four_le_maxDepth
      omega
    · cases h
      trivial

end

namespace OperatingSample

/-- A record of a task attempt, with a version written `2.0`. -/
def members : Members Text := [
  (.str "record_schema", .str "paa-operating-record/0.1.0-draft"),
  (.str "record_id", .str "attempt-1"), (.str "task", .str "reply_draft"),
  (.str "declaration_version", .scalar (.float (.finite 2))), (.str "scope", .scalar .null),
  (.str "subject", .dict [(.str "kind", .str "run"), (.str "id", .str "run-1")]),
  (.str "worker", .dict [(.str "id", .str "drafter"), (.str "version", .str "v1"),
    (.str "configuration_ref", .str "cfg:1")]),
  (.str "usage", .dict [(.str "input_tokens", .int 100), (.str "output_tokens", .scalar .null)]),
  (.str "price", .scalar .null),
  (.str "timestamps", .dict [(.str "started_at", .str "2026-01-01T00:00:00Z"),
    (.str "completed_at", .str "2026-01-01T00:00:01Z"),
    (.str "recorded_at", .str "2026-01-01T00:00:02Z")]),
  (.str "source_references", .list [.str "app://usage/run-1/attempt-1"])]

/-- The record as JSON. -/
def document : String :=
  "\x7b\"record_schema\": \"paa-operating-record/0.1.0-draft\", " ++
  "\"record_id\": \"attempt-1\", \"task\": \"reply_draft\", \"declaration_version\": 2.0, " ++
  "\"scope\": null, \"subject\": \x7b\"kind\": \"run\", \"id\": \"run-1\"\x7d, " ++
  "\"worker\": \x7b\"id\": \"drafter\", \"version\": \"v1\", " ++
  "\"configuration_ref\": \"cfg:1\"\x7d, " ++
  "\"usage\": \x7b\"input_tokens\": 100, \"output_tokens\": null\x7d, \"price\": null, " ++
  "\"timestamps\": \x7b\"started_at\": \"2026-01-01T00:00:00Z\", " ++
  "\"completed_at\": \"2026-01-01T00:00:01Z\", " ++
  "\"recorded_at\": \"2026-01-01T00:00:02Z\"\x7d, " ++
  "\"source_references\": [\"app://usage/run-1/attempt-1\"]\x7d"

/-- `document.encode("utf-8")`. -/
def bytes : List UInt8 := document.toUTF8.data.toList

/-- A `json` module that knows one document. -/
@[reducible] def json : JsonModule where
  loads data := if data = bytes then .ok (.dict members)
    else .error (.valueError "Expecting value: line 1 column 1 (char 0)")
  dumps v := if v.same (.dict members) then .ok document
    else .error (.typeError "Object of type object is not JSON serializable")
  maxDepth := 900
  four_le_maxDepth := Nat.le_of_ble_eq_true rfl

end OperatingSample

theorem decodeOperatingRecord_agrees_sample :
    ((∃ r, @decodeOperatingRecord OperatingSample.json OperatingSample.bytes = .ok r) ↔
      operatingSchema (.dict OperatingSample.members) = true) ∧
      (∀ r, @decodeOperatingRecord OperatingSample.json OperatingSample.bytes = .ok r →
        VersionNormalized (.dict OperatingSample.members) r) ∧
      ∀ e, @decodeOperatingRecord OperatingSample.json OperatingSample.bytes = .error e →
        e.IsRecordError :=
  @decodeOperatingRecord_agrees _ _ OperatingSample.json (.inl (if_pos rfl)) (by decide +kernel)

/-- The sample is valid. -/
example : operatingSchema (.dict OperatingSample.members) = true := by decide +kernel

end PaaRuntime
