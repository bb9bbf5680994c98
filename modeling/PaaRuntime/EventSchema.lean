import PaaRuntime.LoaderDecides
import PaaRuntime.ServiceClock

/-!
# The published schema of autonomy events

`paa-autonomy-event.schema.json`, and the rows whose documents it accepts. Nothing checks a row against
it on the way into the store. `System.exports_conform`: whatever the service commits conforms, where
the declarations that it loads conform to their own schema; an import is taken at its word.
-/

namespace PaaRuntime

namespace EventSchema

open Schema

/-- `^[0-9a-f]{64}$`, where `$` may stand before a last line feed. -/
def sha256Pattern (s : String) : Bool :=
  let digits := if s.toList.getLast? = some '\n' then s.toList.dropLast else s.toList
  digits.length == 64 && digits.all isLowerHex

/-- The format `date-time`. -/
def dateTime (s : String) : Bool := (DateTime.instant? (Text.lit s)).isSome

def constant : Schema String := allOf [type [.string], const "paa-autonomy-event/0.1.0-draft"]

def task : Schema String :=
  allOf [type [.string], pattern TaskSchema.taskPattern, minLength String.length 1]

def declarationVersion : Schema String := allOf [type [.integer], minimum 1]

def scope : Schema String := allOf [type [.string, .null], minLength String.length 1]

def event : Schema String := TaskSchema.oneOfTexts
  ["motion_proposed", "motion_approved", "motion_rejected", "position_changed"]

def sha256 : Schema String := allOf [type [.string], pattern sha256Pattern]

def timestamp : Schema String := allOf [type [.string], format dateTime]

end EventSchema

open Schema TaskSchema EventSchema in
/-- `paa-autonomy-event.schema.json`. -/
def autonomyEventSchema : Schema String := allOf [type [.object], members
  ["event_schema", "id", "motion_id", "task", "declaration_version", "scope", "event",
    "from_position", "to_position", "evidence_ref", "evidence_sha256", "actor", "reason",
    "created_at"]
  [("event_schema", constant), ("id", text), ("motion_id", text), ("task", EventSchema.task),
    ("declaration_version", declarationVersion), ("scope", scope), ("event", event),
    ("from_position", autonomyPosition), ("to_position", autonomyPosition),
    ("evidence_ref", text), ("evidence_sha256", EventSchema.sha256), ("actor", text),
    ("reason", text), ("created_at", timestamp)]]

/-- The document of a row: what `to_json_dict` returns, as JSON has it. -/
def AutonomyEvent.document (e : AutonomyEvent) : Value String := .dict
  [(.str "event_schema", .str e.eventSchema), (.str "id", .str e.id),
    (.str "motion_id", .str e.motionId), (.str "task", .str e.task),
    (.str "declaration_version", .int e.declarationVersion),
    (.str "scope", .scalar (e.scope.elim .null .str)), (.str "event", .str e.event.text),
    (.str "from_position", .str e.fromPosition.text), (.str "to_position", .str e.toPosition.text),
    (.str "evidence_ref", .str e.evidenceRef), (.str "evidence_sha256", .str e.evidenceSha256),
    (.str "actor", .str e.actor), (.str "reason", .str e.reason),
    (.str "created_at", .str e.createdAt)]

/-- What the schema asks of a row. -/
structure AutonomyEvent.Conforms (e : AutonomyEvent) : Prop where
  eventSchema : e.eventSchema = currentEventSchema
  id : e.id ≠ ""
  motionId : e.motionId ≠ ""
  task : TaskSchema.taskPattern e.task = true
  declarationVersion : 1 ≤ e.declarationVersion
  scope : e.scope ≠ some ""
  evidenceRef : e.evidenceRef ≠ ""
  evidenceSha256 : EventSchema.sha256Pattern e.evidenceSha256 = true
  actor : e.actor ≠ ""
  reason : e.reason ≠ ""
  createdAt : (DateTime.instant? (Text.lit e.createdAt)).isSome = true

/-! ## What the parts accept -/

namespace EventSchema

open Schema

variable {s : String}

theorem one_le_length : 1 ≤ s.length ↔ s ≠ "" := by
  rw [Nat.one_le_iff_ne_zero, ne_eq, String.length_eq_zero_iff]

theorem type_str : type [.string] (.str s : Value String) = true := rfl

theorem constant_str : constant (.str s) = true ↔ s = currentEventSchema := by
  rw [constant, allOf_iff, List.forall_mem_cons, List.forall_mem_singleton, const_iff,
    and_iff_right type_str]
  constructor
  · intro h
    cases h
    rfl
  · rintro rfl
    rfl

theorem text_str : TaskSchema.text (.str s) = true ↔ s ≠ "" := by
  rw [TaskSchema.text, allOf_iff, List.forall_mem_cons, List.forall_mem_singleton, minLength_str,
    one_le_length, and_iff_right type_str]

theorem task_str : task (.str s) = true ↔ TaskSchema.taskPattern s = true := by
  have hempty : TaskSchema.taskPattern s = true → s ≠ "" := by
    rintro h rfl
    cases h
  rw [task, allOf_iff, List.forall_mem_cons, List.forall_mem_cons, List.forall_mem_singleton,
    pattern_str, minLength_str, one_le_length, and_iff_right type_str]
  exact and_iff_left_of_imp hempty

theorem declarationVersion_int {i : ℤ} : declarationVersion (.int i) = true ↔ 1 ≤ i := by
  rw [declarationVersion, allOf_iff, List.forall_mem_cons, List.forall_mem_singleton,
    minimum_scalar]
  constructor
  · rintro ⟨-, h⟩
    exact_mod_cast h i rfl
  · intro h
    refine ⟨rfl, fun q hq => ?_⟩
    cases hq
    exact_mod_cast h

theorem scope_scalar {o : Option String} :
    scope (.scalar (o.elim .null .str)) = true ↔ o ≠ some "" := by
  rw [scope, allOf_iff, List.forall_mem_cons, List.forall_mem_singleton]
  cases o with
  | none => exact iff_of_true ⟨rfl, rfl⟩ (Option.some_ne_none _).symm
  | some s =>
    rw [Option.elim, minLength_str, one_le_length, ne_eq, ne_eq, Option.some.injEq]
    exact and_iff_right rfl

theorem event_text (k : AutonomyEventType) : event (.str k.text) = true := by
  cases k <;> decide

theorem autonomyPosition_text (p : AutonomyPosition) :
    TaskSchema.autonomyPosition (.str p.text) = true := by
  cases p <;> decide

theorem sha256_str : sha256 (.str s) = true ↔ sha256Pattern s = true := by
  rw [sha256, allOf_iff, List.forall_mem_cons, List.forall_mem_singleton, pattern_str,
    and_iff_right type_str]

theorem timestamp_str :
    timestamp (.str s) = true ↔ (DateTime.instant? (Text.lit s)).isSome = true := by
  rw [timestamp, allOf_iff, List.forall_mem_cons, List.forall_mem_singleton, format_str,
    and_iff_right type_str]
  rfl

/-- A digest has the pattern. -/
theorem sha256Pattern_hex (d : Digest) : sha256Pattern d.hex = true := by
  obtain ⟨hlength, hall⟩ := d.wellFormed
  have hlast : d.hex.toList.getLast? ≠ some '\n' := by
    intro hlast
    have hfeed : isLowerHex '\n' = true := List.all_eq_true.1 hall _ (List.mem_of_getLast? hlast)
    exact absurd hfeed (by decide)
  unfold sha256Pattern
  rw [if_neg hlast]
  show (d.hex.toList.length == 64 && d.hex.toList.all isLowerHex) = true
  rw [hlength, hall]
  rfl

end EventSchema

open Schema TaskSchema EventSchema in
/-- The members of a row's document, with their schemas. -/
def eventMembers (e : AutonomyEvent) : List (String × Schema String × Value String) :=
  [("event_schema", constant, .str e.eventSchema), ("id", text, .str e.id),
    ("motion_id", text, .str e.motionId), ("task", EventSchema.task, .str e.task),
    ("declaration_version", declarationVersion, .int e.declarationVersion),
    ("scope", scope, .scalar (e.scope.elim .null .str)), ("event", event, .str e.event.text),
    ("from_position", autonomyPosition, .str e.fromPosition.text),
    ("to_position", autonomyPosition, .str e.toPosition.text),
    ("evidence_ref", text, .str e.evidenceRef),
    ("evidence_sha256", EventSchema.sha256, .str e.evidenceSha256),
    ("actor", text, .str e.actor), ("reason", text, .str e.reason),
    ("created_at", timestamp, .str e.createdAt)]

/-- The schema accepts a document exactly where the schema of each member does. -/
theorem document_valid_members {e : AutonomyEvent} :
    autonomyEventSchema e.document = true ↔ ∀ x ∈ eventMembers e, x.2.1 x.2.2 = true := by
  have hkeys : ((eventMembers e).map (·.1)).Nodup := by
    show ["event_schema", "id", "motion_id", "task", "declaration_version", "scope", "event",
      "from_position", "to_position", "evidence_ref", "evidence_sha256", "actor", "reason",
      "created_at"].Nodup
    decide +kernel
  have hobject : Schema.type [.object] e.document = true := rfl
  rw [← Schema.members_each hkeys, autonomyEventSchema, Schema.allOf_iff, List.forall_mem_cons,
    List.forall_mem_singleton, and_iff_right hobject]
  rfl

open EventSchema in
/-- The schema accepts the document of exactly the rows that conform. -/
theorem document_valid_iff {e : AutonomyEvent} :
    autonomyEventSchema e.document = true ↔ e.Conforms := by
  rw [document_valid_members]
  unfold eventMembers
  simp only [List.forall_mem_cons, constant_str, text_str, task_str, declarationVersion_int,
    scope_scalar, event_text, autonomyPosition_text, sha256_str, timestamp_str, true_and]
  constructor
  · rintro ⟨h₁, h₂, h₃, h₄, h₅, h₆, h₇, h₈, h₉, h₁₀, h₁₁, -⟩
    exact ⟨h₁, h₂, h₃, h₄, h₅, h₆, h₇, h₈, h₉, h₁₀, h₁₁⟩
  · rintro ⟨h₁, h₂, h₃, h₄, h₅, h₆, h₇, h₈, h₉, h₁₀, h₁₁⟩
    exact ⟨h₁, h₂, h₃, h₄, h₅, h₆, h₇, h₈, h₉, h₁₀, h₁₁, by exact nofun⟩

/-! ## Declarations of published documents -/

/-- The declaration is loaded from a document that `paa-task.schema.json` accepts. -/
def PaaTaskDeclaration.Published (d : PaaTaskDeclaration) : Prop :=
  ∃ raw path registry, taskSchema raw = true ∧ buildDeclaration raw path registry = .ok d

/-- Ids and login names are no empty texts, clocks are read by `new_created_at`, and triples are those
of published declarations. -/
def Grants.published : Grants where
  name s := s ≠ ""
  clock := IsReading
  triple t := TaskSchema.taskPattern t.task = true ∧ 1 ≤ t.declarationVersion ∧ t.scope ≠ some ""

/-- A schema that types the declarations keeps their triples within it. -/
theorem PaaTaskDeclaration.Published.granted {d : PaaTaskDeclaration} (h : d.Published) :
    Grants.published.OfDeclaration d := by
  obtain ⟨raw, path, registry, hschema, hbuild⟩ := h
  obtain ⟨d', hfields, hrest⟩ := except_bind_ok.1 hbuild
  obtain ⟨_, -, hrest⟩ := except_bind_ok.1 hrest
  obtain rfl := except_pure_ok.1 hrest
  have hauthored := (buildFields_ok.1 hfields).1
  obtain ⟨m, rfl, -, -, hprops⟩ := Schema.object_valid hschema
  have htask := Schema.allOf_iff.1 (hprops 0 _ (by simp) hauthored.task.1) _ (.tail _ (.head _))
  refine fun scope hscope => ⟨Schema.pattern_str.1 htask, hauthored.version.2, ?_⟩
  rintro rfl
  obtain ⟨l, hl, hmem⟩ := hscope
  have hscopes := hauthored.scopes
  rw [hl] at hscopes
  exact hscopes.2.2.2 hmem

/-- A row that has inherited what is granted conforms. -/
theorem Grants.OfRow.conforms {e : AutonomyEvent} (h : Grants.published.OfRow e) : e.Conforms := by
  obtain ⟨digest, href, hsha⟩ := h.evidence
  obtain ⟨t, ht⟩ := h.createdAt
  refine ⟨h.eventSchema, h.id, h.motionId, h.triple.1, h.triple.2.1, h.triple.2.2, ?_, ?_, ?_,
    h.reason, ?_⟩
  · rw [href, evidenceRefFor]
    intro hempty
    exact absurd (String.append_eq_empty_iff.1 hempty).2 (by decide)
  · rw [hsha]
    exact EventSchema.sha256Pattern_hex digest
  · rcases h.actor with hactor | hlogin
    · exact hactor
    · exact hlogin
  · rw [ht, t.instant?_text]
    rfl

/-! ## Runs -/

namespace System

/-- An action that loads only published declarations, imports nothing, and meets surroundings whose
ids and login names are no empty texts and whose clocks are read by `new_created_at`. -/
def Publishes (W : System) : Action → Prop
  | .replaceDirectory directory => directory.All PaaTaskDeclaration.Published
  | a => Grant .published W a

theorem Publishes.grant {W : System} {a : Action} (h : Publishes W a) : Grant .published W a := by
  cases a with
  | replaceDirectory directory => exact fun ds hds d hd => (h ds hds d hd).granted
  | _ => exact h

variable [Hashlib] {config : RuntimeConfig} {W : System} {directory : Directory}

/-- **What the service commits is published.** Where every declaration is loaded from a document that
its schema accepts, the schema of autonomy events accepts the document of every row. -/
theorem exports_conform (hdirectory : directory.All PaaTaskDeclaration.Published)
    (h : Run (next config) Publishes (init directory) W) :
    ∀ e ∈ W.shared.table, autonomyEventSchema e.document = true := by
  have hgranted : directory.All Grants.published.OfDeclaration := fun ds hds d hd =>
    (hdirectory ds hds d hd).granted
  intro e he
  exact document_valid_iff.2
    (rows_granted hgranted (h.mono fun _ _ ha => ha.grant) e he).conforms

end System

/-! ## A promotion and a demotion of the sample task -/

namespace Scenario

/-- The promotion and the demotion, with the sample's task. -/
def sampleCycle : List Action :=
  clockedCalls 0 (.propose ⟨"triage", none, "hotl", "file", none, none⟩) 0 11 ++
    (clockedCalls 1 (.approve ⟨text 9 0, "fine", none⟩) 11 2 ++
      clockedCalls 2 (.demote ⟨"triage", none, "incident", none, []⟩) 13 9)

def afterSample : System :=
  sampleCycle.foldl (@System.next hashing config) (System.init (.ok [Sample.declaration]))

theorem text_ne_empty (n k : ℕ) : text n k ≠ "" := by
  rw [text, ← String.ofList_nil]
  intro h
  cases String.ofList_injective h

theorem publishes_sampleCycle : ∀ a ∈ sampleCycle, ∀ W, System.Publishes W a := by
  intro a ha W
  have hio : ∀ n, Grants.published.OfIo (clockedIo n) := by
    refine fun n => ⟨fun k => ⟨civil n k, rfl⟩, text_ne_empty n, text_ne_empty n, ?_⟩
    rintro name h
    cases h
    show "operator" ≠ ""
    decide
  simp only [sampleCycle, List.mem_append] at ha
  rcases ha with ha | ha | ha <;> rcases mem_clockedCalls ha with rfl | ⟨k, rfl⟩
  all_goals first | trivial | exact hio k

theorem published_sample : Sample.declaration.Published :=
  ⟨Sample.document, "triage.yaml", Sample.registry, by decide +kernel, Sample.document_built⟩

end Scenario

open Scenario in
theorem System.exports_conform_sample : afterSample.shared.table.length = 6 ∧
    ∀ e ∈ afterSample.shared.table, autonomyEventSchema e.document = true := by
  have hdirectory : Directory.All PaaTaskDeclaration.Published (.ok [Sample.declaration]) := by
    rintro ds ⟨⟩ d hd
    rw [List.mem_singleton.1 hd]
    exact published_sample
  refine ⟨by decide +kernel, ?_⟩
  exact @exports_conform hashing config _ _ hdirectory (Run.foldl _ _ publishes_sampleCycle)

end PaaRuntime
