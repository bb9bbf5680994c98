import PaaRuntime.Lib.JsonSchema
import PaaRuntime.Operating

/-!
# The published schema of operating records

`paa-operating-record.schema.json`, part by part, and what its parts accept of a JSON document. The
format `date-time` is what `_timestamp` implements, and the task pattern is matched against the whole
text.
-/

namespace PaaRuntime

namespace OperatingSchema

open Schema

/-- `minLength: 1`. -/
def text : Schema Text := allOf [type [.string], minLength List.length 1]

def task : Schema Text := allOf [type [.string],
  pattern (Pattern.fullmatch Operating.taskPattern), minLength List.length 1]

def declarationVersion : Schema Text := allOf [type [.integer], minimum 1]

def scope : Schema Text := allOf [type [.string, .null], minLength List.length 1]

def subjectKind : Schema Text := allOf [type [.string], enum ["case", "run"]]

def subject : Schema Text := allOf [type [.object], members ["kind", "id"]
  [("kind", subjectKind), ("id", text)]]

def worker : Schema Text := allOf [type [.object], members ["id", "version", "configuration_ref"]
  [("id", text), ("version", text), ("configuration_ref", text)]]

def quantity : Schema Text := allOf [type [.number, .null], minimum 0]

def usage : Schema Text := allOf [type [.object, .null], minProperties 1,
  propertyNames (minLength List.length 1), additionalProperties [] quantity]

def amount : Schema Text := allOf [type [.number], minimum 0]

def price : Schema Text := allOf [type [.object, .null], members ["currency", "amount", "basis"]
  [("currency", text), ("amount", amount), ("basis", text)]]

def component : Schema Text := allOf [type [.object],
  members ["kind", "quantity", "unit", "price"]
    [("kind", text), ("quantity", quantity), ("unit", text), ("price", price)]]

def components : Schema Text := allOf [type [.array], items component]

/-- The format `date-time`. -/
def dateTime (s : Text) : Bool := (Operating.timestamp (.str s) []).isOk

def timestamp : Schema Text := allOf [type [.string], format dateTime]

def timestamps : Schema Text := allOf [type [.object],
  members ["started_at", "completed_at", "recorded_at"]
    [("started_at", timestamp), ("completed_at", timestamp), ("recorded_at", timestamp)]]

def sourceReferences : Schema Text := allOf [type [.array], minItems 1, uniqueItems, items text]

end OperatingSchema

open Schema OperatingSchema in
/-- `paa-operating-record.schema.json`. -/
def operatingSchema : Schema Text := allOf [type [.object], members
  ["record_schema", "record_id", "task", "declaration_version", "scope", "subject", "worker",
    "usage", "price", "timestamps", "source_references"]
  [("record_schema", const "paa-operating-record/0.1.0-draft"), ("record_id", text),
    ("task", task), ("declaration_version", declarationVersion), ("scope", scope),
    ("subject", subject), ("worker", worker), ("usage", usage), ("price", price),
    ("components", components), ("timestamps", timestamps),
    ("source_references", sourceReferences)]]

/-! ## What the parts accept -/

namespace OperatingSchema

open Schema

variable {v : Value Text} {m : Members Text} {s : Text}

theorem text_iff : text v = true ↔ ∃ s, v = .str s ∧ s ≠ [] := by
  simp only [text, allOf_iff, List.forall_mem_cons, type_string_iff]
  constructor
  · rintro ⟨⟨s, rfl⟩, hlen, -⟩
    exact ⟨s, rfl, List.length_pos_iff.1 (minLength_str.1 hlen)⟩
  · rintro ⟨s, rfl, hs⟩
    exact ⟨⟨s, rfl⟩, minLength_str.2 (List.length_pos_iff.2 hs), by simp⟩

theorem quantity_iff (hv : v.isJson = true) : quantity v = true ↔
    v = .scalar .null ∨ ∃ s q, v = .scalar s ∧ s.number? = some q ∧ 0 ≤ q := by
  simp only [quantity, allOf_iff, List.forall_mem_cons, type_or_null]
  rcases v with s | l | m
  · rw [Value.isJson_scalar] at hv
    simp only [type_number_iff hv, minimum_scalar]
    constructor
    · rintro ⟨⟨q, hq⟩ | hnull, hmin, -⟩
      · exact .inr ⟨s, q, rfl, hq, by simpa using hmin q hq⟩
      · exact .inl hnull
    · rintro (hnull | ⟨_, q, ⟨⟩, hq, hpos⟩)
      · cases hnull
        exact ⟨.inr rfl, by simp [Scalar.number?]⟩
      · exact ⟨.inl ⟨q, hq⟩, by simpa [hq] using hpos⟩
  · simp [JsonType.holds]
  · simp [JsonType.holds]

theorem amount_iff : amount v = true ↔ v.isNull = false ∧ quantity v = true := by
  simp only [amount, quantity, allOf_iff, List.forall_mem_cons, type_or_null, type_iff,
    Value.isNull_eq_false]
  constructor
  · rintro ⟨hnumber, hmin⟩
    refine ⟨?_, .inl hnumber, hmin⟩
    rintro rfl
    cases hnumber
  · rintro ⟨hnull, hnumber | hnull', hmin⟩
    · exact ⟨hnumber, hmin⟩
    · exact absurd hnull' hnull

/-- The keys of an object are texts, and those of `usage` nonempty ones. -/
theorem usage_iff (hkeys : ∀ e ∈ m, ∃ k, e.1 = .str k) : usage (.dict m) = true ↔
    m ≠ [] ∧ ∀ e ∈ m, text (.scalar e.1) = true ∧ quantity e.2 = true := by
  have hkey : ∀ e ∈ m, (text (.scalar e.1) = true ↔
      minLength List.length 1 (.scalar e.1) = true) := fun e he => by
    obtain ⟨k, hk⟩ := hkeys e he
    rw [hk, text, allOf_iff]
    simp [type_string_iff]
  have husage : usage (.dict m) = true ↔ 1 ≤ m.length ∧
      (∀ e ∈ m, minLength List.length 1 (.scalar e.1) = true) ∧
        ∀ e ∈ m, quantity e.2 = true := by
    simp [usage, type_or_null, JsonType.holds]
  rw [husage, Nat.one_le_iff_ne_zero, ne_eq, List.length_eq_zero_iff, ← forall₂_and]
  exact and_congr_right fun _ => forall₂_congr fun e he => by rw [hkey e he]

theorem sourceReferences_iff {l : List (Value Text)} : sourceReferences (.list l) = true ↔
    l ≠ [] ∧ distinct l = true ∧ ∀ v ∈ l, text v = true := by
  simp [sourceReferences, type_array_iff, ← List.length_pos_iff, Nat.succ_le_iff]

theorem declarationVersion_iff : declarationVersion v = true ↔
    ∃ s n, v = .scalar s ∧ s.number? = some ((n : ℤ) : ℚ) ∧ 1 ≤ n := by
  simp only [declarationVersion, allOf_iff, List.forall_mem_cons, type_iff]
  rcases v with s | l | m
  · simp only [type_integer_iff, minimum_scalar]
    constructor
    · rintro ⟨⟨n, hn⟩, hmin, -⟩
      exact ⟨s, n, rfl, hn, by exact_mod_cast hmin n hn⟩
    · rintro ⟨_, n, ⟨⟩, hn, hone⟩
      refine ⟨⟨n, hn⟩, fun q hq => ?_, by simp⟩
      rw [hn] at hq
      cases hq
      exact_mod_cast hone
  · simp [JsonType.holds]
  · simp [JsonType.holds]

theorem subjectKind_iff :
    subjectKind v = true ↔ v.text?.all (· ∉ (["case", "run"] : List Text)) = false := by
  simp only [subjectKind, allOf_iff, List.forall_mem_cons, type_string_iff, enum_iff]
  cases hv : v.text? with
  | none =>
    refine iff_of_false ?_ (by simp)
    rintro ⟨⟨s, rfl⟩, -⟩
    cases hv
  | some s =>
    rw [Value.text?_eq_some.1 hv]
    simp [or_iff_not_imp_left]

/-! ## Nesting -/

theorem text_depthLe : DepthLe 0 text := depthLe_type (by decide) (by decide)

theorem usage_depthLe : DepthLe 1 usage := by
  refine depthLe_or_null fun v hv hs => ?_
  obtain ⟨m, rfl⟩ := type_object_iff.1 (allOf_iff.1 hs _ (.head _))
  obtain ⟨-, hkeys, hjson⟩ := Value.isJson_dict.1 hv
  have husage : usage (.dict m) = true := by
    rw [usage, allOf_or_null (by simp)]
    exact hs
  have hquantity : DepthLe 0 quantity := depthLe_type (by decide) (by decide)
  exact Value.depth_dict_le fun e he =>
    hquantity e.2 (hjson e he) ((usage_iff hkeys).1 husage |>.2 e he).2

theorem price_depthLe : DepthLe 1 price := by
  refine depthLe_or_null (depthLe_object ?_)
  simp only [List.forall_mem_cons]
  exact ⟨text_depthLe, depthLe_type (by decide) (by decide), text_depthLe, by simp⟩

theorem components_depthLe : DepthLe 3 components := by
  have hcomponent : DepthLe 2 component := by
    refine depthLe_object ?_
    simp only [List.forall_mem_cons]
    exact ⟨text_depthLe.mono (by omega), (depthLe_type (by decide) (by decide)).mono (Nat.zero_le 1),
      text_depthLe.mono (by omega), price_depthLe, by simp⟩
  exact depthLe_items hcomponent (.head _)

/-- Valid documents are nested four deep at most: a component's price in a record's list. -/
theorem operatingSchema_depthLe : DepthLe 4 operatingSchema := by
  refine depthLe_object ?_
  have hscalar : ∀ {types : List JsonType} {ss : List (Schema Text)}, .object ∉ types →
      .array ∉ types → DepthLe 3 (allOf (type types :: ss)) :=
    fun h h' => (depthLe_type h h').mono (Nat.zero_le 3)
  have hrecord : ∀ {requires : List Text} {props : List (Text × Schema Text)},
      (∀ p ∈ props, DepthLe 0 p.2) → DepthLe 3 (allOf [type [.object], members requires props]) :=
    fun h => (depthLe_object h).mono (by omega)
  have htimestamp : DepthLe 0 timestamp := depthLe_type (by decide) (by decide)
  simp only [List.forall_mem_cons]
  refine ⟨depthLe_const.mono (Nat.zero_le 3), hscalar (by decide) (by decide),
    hscalar (by decide) (by decide), hscalar (by decide) (by decide),
    hscalar (by decide) (by decide), hrecord ?_, hrecord ?_, usage_depthLe.mono (by omega),
    price_depthLe.mono (by omega), components_depthLe, hrecord ?_,
    (depthLe_items text_depthLe ?_).mono (by omega), by simp⟩
  · simp only [List.forall_mem_cons]
    exact ⟨depthLe_type (by decide) (by decide), text_depthLe, by simp⟩
  · simp only [List.forall_mem_cons]
    exact ⟨text_depthLe, text_depthLe, text_depthLe, by simp⟩
  · simp only [List.forall_mem_cons]
    exact ⟨htimestamp, htimestamp, htimestamp, by simp⟩
  · exact .tail _ (.tail _ (.head _))

end OperatingSchema

end PaaRuntime
