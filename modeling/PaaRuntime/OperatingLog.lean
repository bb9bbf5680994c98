import PaaRuntime.Lib.Interleaving
import PaaRuntime.OperatingDecides
import PaaRuntime.OperatingStore

/-!
# The operating store is an append-only log

The table holds the records whose append has returned, one row each, in order (`Logged`). From this
every append succeeds exactly on a record that the decoder accepts under a new id, and every lookup
returns the records of its subject, as decoded, in the order of their appends.
-/

namespace PaaRuntime

namespace OperatingStore

open Operating

variable {v r : Value Text} {m : Members Text}

/-! ## Records -/

/-- Every text in the value has a UTF-8 encoding. -/
def Encodable (v : Value Text) : Prop := ∀ x ∈ v.scalars, (keyText x).Encodable

instance (v : Value Text) : Decidable (Encodable v) := List.decidableBAll _ _

def recordId (v : Value Text) : Option Text := (v.member "record_id").bind (·.text?)

/-- The text under a key of the record's subject. -/
def subjectText (v : Value Text) (key : Text) : Option Text :=
  ((v.member "subject").bind (·.member key)).bind (·.text?)

/-- The record has exactly the subject's kind and id. -/
def hasSubject (subject : RecordSubject) (v : Value Text) : Bool :=
  subjectText v "kind" = some subject.kind && subjectText v "id" = some subject.id

/-- What the decoder leaves where the columns are taken from. -/
structure Columns (v r : Value Text) (id kind subjectId : Text) : Prop where
  ofRecord : recordId v = some id
  ofKind : subjectText v "kind" = some kind
  ofSubject : subjectText v "id" = some subjectId
  supported : kind ∈ (["case", "run"] : List Text)
  recordField : field r "record_id" = .ok (.str id)
  subjectField : ∃ subject, field r "subject" = .ok subject ∧
    field subject "kind" = .ok (.str kind) ∧ field subject "id" = .ok (.str subjectId)

theorem subject_columns {u : Unit} (h : Operating.subject v = .ok u) :
    ∃ (m : Members Text) (kind id : Text), v = .dict m ∧ m.get? "kind" = some (.str kind) ∧
      kind ∈ (["case", "run"] : List Text) ∧ m.get? "id" = some (.str id) := by
  unfold Operating.subject at h
  simp only [except_bind_ok, Operating.object_ok, Operating.subscript_ok] at h
  obtain ⟨m, ⟨rfl, -⟩, x, hx, _, hkind, y, hy, hid⟩ := h
  have hsupported := Operating.failIf_checks.passes.1 ⟨_, hkind⟩
  obtain ⟨id, rfl, -⟩ := OperatingSchema.text_iff.1
    (Operating.text_checks.discard.passes.1 ⟨_, hid⟩)
  rw [← OperatingSchema.subjectKind_iff] at hsupported
  obtain ⟨kind, hmem, rfl⟩ := Schema.enum_iff.1
    (Schema.allOf_iff.1 hsupported _ (.tail _ (.head _)))
  exact ⟨m, kind, id, rfl, hx, hmem, hy⟩

theorem decodeDocument_columns (h : Operating.decodeDocument v = .ok r) :
    ∃ id kind subjectId, Columns v r id kind subjectId := by
  unfold Operating.decodeDocument Operating.checkRest at h
  simp only [except_bind_ok, except_pure_ok, Operating.object_ok, Operating.subscript_ok] at h
  obtain ⟨m, ⟨rfl, -⟩, _, -, _, -, x, hx, _, hid, _, -, _, -, _, -, n, -, _, hrest, rfl⟩ := h
  obtain ⟨_, -, _, -, y, hy, _, hsubject, -⟩ := hrest
  obtain ⟨id, rfl, -⟩ := OperatingSchema.text_iff.1
    (Operating.text_checks.discard.passes.1 ⟨_, hid⟩)
  obtain ⟨l, kind, subjectId, rfl, hkind, hmem, hsubjectId⟩ := subject_columns hsubject
  -- the version alone is replaced
  have hset := fun {k} (h : k ≠ Text.lit "declaration_version") =>
    Members.get?_set_of_ne (m := m) (.int n) h
  have hl : m.get? "subject" = some (.dict l) := (hset (by decide +kernel)).symm.trans hy
  refine ⟨id, kind, subjectId, ?_, ?_, ?_, hmem, ?_, .dict l, ?_, ?_, ?_⟩
  · simp [recordId, hx, Value.text?]
  · simp [subjectText, hl, hkind, Value.text?]
  · simp [subjectText, hl, hsubjectId, Value.text?]
  · exact Operating.subscript_ok.2 ((hset (by decide +kernel)).trans hx)
  · exact Operating.subscript_ok.2 hy
  · exact Operating.subscript_ok.2 hkind
  · exact Operating.subscript_ok.2 hsubjectId

theorem Encodable.recordId {id : Text} (hv : Encodable v) (h : recordId v = some id) :
    id.Encodable := by
  obtain ⟨w, hw, htext⟩ := Option.bind_eq_some_iff.1 h
  rw [Value.text?_eq_some.1 htext] at hw
  exact hv (.str id) (Value.scalars_of_member hw (by simp [Value.scalars]))

theorem Encodable.subjectText {key s : Text} (hv : Encodable v) (h : subjectText v key = some s) :
    s.Encodable := by
  obtain ⟨w, hw, htext⟩ := Option.bind_eq_some_iff.1 h
  obtain ⟨subject, hsubject, hkey⟩ := Option.bind_eq_some_iff.1 hw
  rw [Value.text?_eq_some.1 htext] at hkey
  exact hv (.str s) (Value.scalars_of_member hsubject (Value.scalars_of_member hkey
    (by simp [Value.scalars])))

/-! ## The transaction -/

section

variable {t t' : OperatingTable} {id kind subjectId : Text} {document : String}

theorem bindField_of_encodable {s : Text} (h : s.Encodable) : bindField (.str s) = .ok s := if_pos h

/-- The transaction inserts the columns. -/
theorem insertRecord_eq (hv : Encodable v) (hc : Columns v r id kind subjectId) :
    insertRecord document r (some t) = insertRow t id kind subjectId document := by
  obtain ⟨subject, hsubject, hkind, hid⟩ := hc.subjectField
  simp only [insertRecord, hc.recordField, hsubject, Bind.bind, Except.bind, hkind, hid,
    bindField_of_encodable (hv.recordId hc.ofRecord),
    bindField_of_encodable (hv.subjectText hc.ofKind),
    bindField_of_encodable (hv.subjectText hc.ofSubject)]

theorem insertRow_ok (hkind : kind ∈ (["case", "run"] : List Text))
    (hpos : ∀ row ∈ t.rows, 0 < row.sequence) :
    insertRow t id kind subjectId document = .ok t' ↔ (∀ row ∈ t.rows, row.recordId ≠ id) ∧
      t' = ⟨t.rows ++ [⟨t.lastSequence + 1, id, kind, subjectId, document⟩],
        t.lastSequence + 1⟩ := by
  -- no row has the `sequence` that the trigger sees
  have hunset : ∀ row ∈ t.rows, row.sequence ≠ unsetSequence := fun row hrow h => by
    have hrow := hpos row hrow
    rw [h, unsetSequence] at hrow
    omega
  have hcheck : ¬ (kind ≠ "case" ∧ kind ≠ "run") := fun h => by
    simp [h] at hkind
  unfold insertRow
  rw [if_neg hcheck]
  split_ifs with h₁ h₂
  · obtain ⟨row, hrow, h⟩ := List.any_eq_true.1 h₁
    refine iff_of_false (fun h => nomatch h) fun hnew => ?_
    rcases Bool.or_eq_true_iff.1 h with h | h
    · exact hnew.1 row hrow (of_decide_eq_true h)
    · exact hunset row hrow (of_decide_eq_true h)
  · obtain ⟨row, hrow, h⟩ := List.any_eq_true.1 h₂
    exact absurd (List.any_eq_true.2 ⟨row, hrow, Bool.or_eq_true_iff.2 (.inl h)⟩) h₁
  · have hnew : ∀ row ∈ t.rows, row.recordId ≠ id := fun row hrow he =>
      h₂ (List.any_eq_true.2 ⟨row, hrow, decide_eq_true he⟩)
    rw [Except.ok.injEq, eq_comm, and_iff_right hnew]

end

/-! ## Appending -/

section

variable [JsonModule] {document : String}

/-- What `json` is relied on for, of one value: it writes what it reads, and reads what it writes. -/
structure Inverts (v : Value Text) : Prop where
  loads_dumps : ∀ document, JsonModule.dumps v = .ok document →
    JsonModule.loads (encodeUtf8 document) = .ok v
  dumps_loads : ∀ data, JsonModule.loads data = .ok v → ∃ document, JsonModule.dumps v = .ok document

/-- A value of type `OperatingRecord`: text keys, finite numbers, and texts without surrogates. -/
structure Wire (v : Value Text) : Prop where
  json : v.isJson = true
  encodable : Encodable v
  inverts : Inverts v

/-- The decoder accepts a JSON text of the record. -/
def Accepts (v : Value Text) : Prop :=
  ∃ data, JsonModule.loads data = .ok v ∧ ∃ r, decodeOperatingRecord data = .ok r

theorem serialize_ok (hv : Wire v) : serialize v = .ok (document, r) ↔
    JsonModule.dumps v = .ok document ∧ Operating.decodeDocument v = .ok r := by
  unfold serialize
  split
  all_goals rename_i hdumps
  · simp [hdumps]
  · simp [hdumps]
  · simp [hdumps]
  · simp [hdumps]
  · rename_i d
    rw [decodeOperatingRecord_of_loads (hv.inverts.loads_dumps d hdumps) hv.json, hdumps]
    cases Operating.decodeDocument v with
    | error e => simp [Bind.bind, Except.bind]
    | ok r' => simp [Bind.bind, Except.bind, pure, Except.pure]

/-- A record is serialized exactly when the decoder accepts it. -/
theorem serialize_accepts (hv : Wire v) : (∃ p, serialize v = .ok p) ↔ Accepts v := by
  constructor
  · rintro ⟨⟨document, r⟩, h⟩
    obtain ⟨hdumps, hr⟩ := (serialize_ok hv).1 h
    have hloads := hv.inverts.loads_dumps document hdumps
    exact ⟨_, hloads, r, by rw [decodeOperatingRecord_of_loads hloads hv.json, hr]⟩
  · rintro ⟨data, hdata, r, hr⟩
    obtain ⟨document, hdumps⟩ := hv.inverts.dumps_loads data hdata
    rw [decodeOperatingRecord_of_loads hdata hv.json] at hr
    exact ⟨(document, r), (serialize_ok hv).2 ⟨hdumps, hr⟩⟩

/-- The row holds the record. -/
structure StoredAs (v : Value Text) (row : OperatingRow) : Prop where
  json : v.isJson = true
  loads : JsonModule.loads (encodeUtf8 row.document) = .ok v
  decodes : ∃ r, decodeDocument v = .ok r
  recordId : recordId v = some row.recordId
  subjectKind : subjectText v "kind" = some row.subjectKind
  subjectId : subjectText v "id" = some row.subjectId

/-- The table holds the records, one row each, in the order of `sequence`. -/
structure Logged (l : List (Value Text)) (t : OperatingTable) : Prop where
  stored : List.Forall₂ StoredAs l t.rows
  increasing : t.rows.Pairwise (·.sequence < ·.sequence)
  bounded : ∀ row ∈ t.rows, 0 < row.sequence ∧ row.sequence ≤ t.lastSequence
  nonneg : 0 ≤ t.lastSequence

variable {l : List (Value Text)} {t : OperatingTable} {subject : RecordSubject}

theorem logged_created : Logged [] ⟨[], 0⟩ := ⟨.nil, .nil, nofun, Int.le_refl 0⟩

theorem map_recordId {rows : List OperatingRow} (h : List.Forall₂ StoredAs l rows) :
    l.map recordId = rows.map fun row => some row.recordId := by
  induction h with
  | nil => rfl
  | cons hw _ ih => rw [List.map_cons, List.map_cons, ih, hw.recordId]

/-- The ids in the table are those of the records. -/
theorem Logged.recordIds (h : Logged l t) {id : Text} :
    (∀ row ∈ t.rows, row.recordId ≠ id) ↔ ∀ w ∈ l, recordId w ≠ some id := by
  rw [← List.forall_mem_map (f := recordId) (P := (· ≠ some id)), map_recordId h.stored]
  simp

/-- One more row with the next `sequence`. -/
theorem Logged.concat {row : OperatingRow} (h : Logged l t) (hv : StoredAs v row)
    (hrow : row.sequence = t.lastSequence + 1) :
    Logged (l ++ [v]) ⟨t.rows ++ [row], t.lastSequence + 1⟩ := by
  have hlast := h.nonneg
  refine ⟨List.rel_append h.stored (.cons hv .nil), List.pairwise_append.2 ⟨h.increasing,
    List.pairwise_singleton _ _, fun old hold new hnew => ?_⟩, fun new hnew => ?_,
    by show 0 ≤ t.lastSequence + 1; omega⟩
  · rw [List.mem_singleton.1 hnew, hrow]
    have hbound := (h.bounded old hold).2
    omega
  · rcases List.mem_append.1 hnew with hold | hnew
    · have hbound := h.bounded new hold
      exact ⟨hbound.1, by show _ ≤ t.lastSequence + 1; omega⟩
    · rw [List.mem_singleton.1 hnew, hrow]
      exact ⟨by omega, Int.le_refl _⟩

/-- **An append** returns with the record at the end of the log, or raises and changes nothing; it
returns exactly on a record that the decoder accepts under a new id. -/
theorem append_cases (h : Logged l t) (hv : Wire v) :
    (∃ t', append v (some t) = (.ok (), some t') ∧ Logged (l ++ [v]) t' ∧ Accepts v ∧
        ∀ w ∈ l, recordId w ≠ recordId v) ∨
      ∃ e, append v (some t) = (.error e, some t) ∧
        ¬ (Accepts v ∧ ∀ w ∈ l, recordId w ≠ recordId v) := by
  rcases hserialize : serialize v with e | ⟨document, r⟩
  · refine .inr ⟨e, by rw [append, hserialize], fun ⟨haccepts, _⟩ => ?_⟩
    obtain ⟨p, hp⟩ := (serialize_accepts hv).2 haccepts
    rw [hserialize] at hp
    cases hp
  · have haccepts : Accepts v := (serialize_accepts hv).1 ⟨_, hserialize⟩
    obtain ⟨hdumps, hr⟩ := (serialize_ok hv).1 hserialize
    obtain ⟨id, kind, subjectId, hc⟩ := decodeDocument_columns hr
    have hpos := fun row hrow => (h.bounded row hrow).1
    have hinsert : insertRecord document r (some t) = insertRow t id kind subjectId document :=
      insertRecord_eq hv.encodable hc
    rcases hrow : insertRow t id kind subjectId document with e | t'
    · have hold : ¬ ∀ row ∈ t.rows, row.recordId ≠ id := fun hnew => by
        rw [(insertRow_ok hc.supported hpos).2 ⟨hnew, rfl⟩] at hrow
        cases hrow
      rw [h.recordIds, ← hc.ofRecord] at hold
      refine .inr ?_
      rw [append, hserialize]
      dsimp only
      rw [hinsert, hrow]
      cases e <;> exact ⟨_, rfl, fun hboth => hold hboth.2⟩
    · obtain ⟨hnew, rfl⟩ := (insertRow_ok hc.supported hpos).1 hrow
      refine .inl ⟨_, by rw [append, hserialize]; dsimp only; rw [hinsert, hrow], ?_, haccepts, ?_⟩
      · exact h.concat ⟨hv.json, hv.inverts.loads_dumps document hdumps, ⟨r, hr⟩, hc.ofRecord,
          hc.ofKind, hc.ofSubject⟩ rfl
      · rw [hc.ofRecord]
        exact h.recordIds.1 hnew

/-- Rows are decoded to the records that they hold. -/
theorem decode_rows {rows : List OperatingRow} (h : List.Forall₂ StoredAs l rows) (i : ℕ) :
    ∃ records, checkEach (fun _ document => decodeOperatingRecord (encodeUtf8 document)) i
        (rows.map (·.document)) = .ok records ∧ List.Forall₂ VersionNormalized l records := by
  induction h generalizing i with
  | nil => exact ⟨[], rfl, .nil⟩
  | @cons w row _ _ hw _ ih =>
    obtain ⟨records, hrecords, hnormalized⟩ := ih (i + 1)
    obtain ⟨r, hr⟩ := hw.decodes
    have hdecode : decodeOperatingRecord (encodeUtf8 row.document) = .ok r :=
      (decodeOperatingRecord_of_loads hw.loads hw.json).trans hr
    refine ⟨r :: records, ?_, .cons (decodeDocument_normalizes hr) hnormalized⟩
    rw [List.map_cons, checkEach, hdecode, hrecords]
    rfl

/-- **A lookup** returns the records of the subject, in order, as decoded. -/
theorem getBySubject_ok (h : Logged l t) (hkind : subject.kind.Encodable)
    (hid : subject.id.Encodable) :
    ∃ records, getBySubject subject (some t) = .ok records ∧
      List.Forall₂ VersionNormalized (l.filter (hasSubject subject)) records := by
  have hfilter := forall₂_filter (p := hasSubject subject)
    (q := fun row => row.subjectKind = subject.kind ∧ row.subjectId = subject.id)
    (fun w row hw => by simp [hasSubject, hw.subjectKind, hw.subjectId]) h.stored
  -- the rows are in the order of `sequence` already
  have hsorted := ((h.increasing.filter fun row =>
    row.subjectKind = subject.kind ∧ row.subjectId = subject.id).imp
      fun {a b} hab => Int.le_of_lt hab).insertionSort_eq
  obtain ⟨records, hrecords, hnormalized⟩ := decode_rows hfilter 0
  refine ⟨records, ?_, hnormalized⟩
  rw [getBySubject, bindText, if_pos hkind, bindText, if_pos hid]
  show checkEach _ 0 (selectDocuments t subject.kind subject.id) = _
  rw [selectDocuments, hsorted, hrecords]

/-! ## Runs -/

/-- The calls that are made: through open connections, with values of their argument types. -/
def Allowed (s : State) : Call → Prop
  | .connect _ => True
  | .append i record => s.connected i = true ∧ Wire record
  | .getBySubject i subject =>
    s.connected i = true ∧ subject.kind.Encodable ∧ subject.id.Encodable

/-- Where a store has been opened, the table holds what has been appended. -/
def State.Inv (s : State) : Prop :=
  match s.db with
  | some t => Logged s.appended t
  | none => s.appended = [] ∧ ∀ i, s.connected i = false

variable {s s' : State}

theorem State.Inv.logged {i : ℕ} (h : s.Inv) (hi : s.connected i = true) :
    ∃ t, s.db = some t ∧ Logged s.appended t := by
  unfold State.Inv at h
  split at h
  · next t ht => exact ⟨t, ht, h⟩
  · rw [h.2 i] at hi
    cases hi

theorem inv_next (h : s.Inv) {c : Call} (hc : Allowed s c) : (next s c).Inv := by
  cases c with
  | connect i =>
    unfold State.Inv at h
    split at h
    · next t ht =>
      show Logged s.appended (createTable s.db)
      rw [ht]
      exact h
    · next hnone =>
      show Logged s.appended (createTable s.db)
      rw [hnone, h.1]
      exact logged_created
  | append i record =>
    obtain ⟨t, ht, hlogged⟩ := h.logged hc.1
    simp only [next, ht]
    rcases append_cases hlogged hc.2 with ⟨t', happend, hlogged', -⟩ | ⟨e, happend, -⟩ <;>
      rw [happend]
    · exact hlogged'
    · exact hlogged
  | getBySubject i subject => exact h

/-- Records are appended at the end only, and a connection stays open. -/
structure State.Extends (s s' : State) : Prop where
  appended : s.appended <+: s'.appended
  connected : ∀ i, s.connected i = true → s'.connected i = true

theorem extends_next (s : State) (c : Call) : s.Extends (next s c) := by
  cases c with
  | connect j =>
    refine ⟨List.prefix_rfl, fun i hi => ?_⟩
    by_cases hij : i = j
    · subst hij
      exact Function.update_self ..
    · exact (Function.update_of_ne hij ..).trans hi
  | append j record =>
    rcases happend : append record s.db with ⟨e | u, db⟩ <;> simp only [next, happend]
    · exact ⟨List.prefix_rfl, fun _ hi => hi⟩
    · exact ⟨List.prefix_append _ _, fun _ hi => hi⟩
  | getBySubject j subject => exact ⟨List.prefix_rfl, fun _ hi => hi⟩

theorem extends_run (h : Run next Allowed s s') : s.Extends s' :=
  h.relation (fun _ => ⟨List.prefix_rfl, fun _ hi => hi⟩)
    (fun h h' => ⟨h.appended.trans h'.appended, fun i hi => h'.connected i (h.connected i hi)⟩)
    fun s c _ => extends_next s c

/-- **The store is an append-only log with unique ids**, in every state that calls through any
connections lead to. -/
theorem append_only_log (h : Run next Allowed State.initial s) :
    (∀ i v, Allowed s (.append i v) →
      ((append v s.db).1 = .ok () ↔ Accepts v ∧ ∀ w ∈ s.appended, recordId w ≠ recordId v) ∧
      ∀ e, (append v s.db).1 = .error e → (append v s.db).2 = s.db) ∧
    ∀ i subject, Allowed s (.getBySubject i subject) →
      ∃ records, getBySubject subject s.db = .ok records ∧
        List.Forall₂ VersionNormalized (s.appended.filter (hasSubject subject)) records ∧
        ∀ s', Run next Allowed s s' →
          ∃ later, getBySubject subject s'.db = .ok (records ++ later) := by
  have hinitial : State.initial.Inv := ⟨rfl, fun _ => rfl⟩
  have hinv : s.Inv := h.invariant (fun _ _ hc hs => inv_next hs hc) hinitial
  constructor
  · rintro i v ⟨hi, hv⟩
    obtain ⟨t, ht, hlogged⟩ := hinv.logged hi
    rw [ht]
    rcases append_cases hlogged hv with ⟨t', happend, -, hok⟩ | ⟨e, happend, hnot⟩ <;> rw [happend]
    · exact ⟨iff_of_true rfl hok, fun _ h => nomatch h⟩
    · exact ⟨iff_of_false (fun h => nomatch h) hnot, fun _ _ => rfl⟩
  · rintro i subject ⟨hi, hkind, hid⟩
    obtain ⟨t, ht, hlogged⟩ := hinv.logged hi
    obtain ⟨records, hrecords, hnormalized⟩ := getBySubject_ok hlogged hkind hid
    refine ⟨records, by rw [ht, hrecords], hnormalized, fun s' hrun => ?_⟩
    have hextends := extends_run hrun
    have hinv' : s'.Inv := hrun.invariant (fun _ _ hc hs => inv_next hs hc) hinv
    obtain ⟨t', ht', hlogged'⟩ := hinv'.logged (hextends.connected i hi)
    obtain ⟨records', hrecords', hnormalized'⟩ := getBySubject_ok hlogged' hkind hid
    obtain ⟨later, rfl⟩ := forall₂_isPrefix (R := VersionNormalized)
      (fun _ _ _ => versionNormalized_unique) hnormalized hnormalized'
      (hextends.appended.filter (hasSubject subject))
    exact ⟨later, by rw [ht', hrecords']⟩

end

end OperatingStore

namespace OperatingSample

open OperatingStore

/-- The sample record, as the sample `json` module has it. -/
theorem wire : @Wire json (.dict members) :=
  @Wire.mk json _ (by decide +kernel) (by decide +kernel) (@Inverts.mk json _
    (fun document h => by
      have hdumps : json.dumps (.dict members) = .ok OperatingSample.document :=
        if_pos (by decide +kernel)
      rw [hdumps] at h
      cases h
      exact if_pos rfl)
    fun _ _ => ⟨OperatingSample.document, if_pos (by decide +kernel)⟩)

/-- Two stores are opened, and the record is appended through the first one. -/
def state : State := @next json (@next json (@next json State.initial (.connect 0)) (.connect 1))
  (.append 0 (.dict members))

theorem run_state : @Run _ _ (@next json) (@Allowed json) State.initial state := by
  have h₁ := @Run.single _ _ (@next json) (@Allowed json) State.initial (Call.connect 0) trivial
  have h₂ := h₁.act (Call.connect 1) trivial
  exact h₂.act (Call.append 0 (.dict members)) ⟨rfl, wire⟩

end OperatingSample

namespace OperatingStore

theorem append_only_log_sample :
    (∀ i v, @Allowed OperatingSample.json OperatingSample.state (.append i v) →
      ((@append OperatingSample.json v OperatingSample.state.db).1 = .ok () ↔
        @Accepts OperatingSample.json v ∧
          ∀ w ∈ OperatingSample.state.appended, recordId w ≠ recordId v) ∧
      ∀ e, (@append OperatingSample.json v OperatingSample.state.db).1 = .error e →
        (@append OperatingSample.json v OperatingSample.state.db).2 = OperatingSample.state.db) ∧
    ∀ i subject, @Allowed OperatingSample.json OperatingSample.state (.getBySubject i subject) →
      ∃ records, @getBySubject OperatingSample.json subject OperatingSample.state.db = .ok records ∧
        List.Forall₂ VersionNormalized
          (OperatingSample.state.appended.filter (hasSubject subject)) records ∧
        ∀ s', @Run _ _ (@next OperatingSample.json) (@Allowed OperatingSample.json)
          OperatingSample.state s' →
          ∃ later, @getBySubject OperatingSample.json subject s'.db = .ok (records ++ later) :=
  @append_only_log OperatingSample.json _ OperatingSample.run_state

/-- In the sample the record is in the log, and cannot be appended again. -/
example : OperatingSample.state.appended.length = 1 ∧
    (@append OperatingSample.json (.dict OperatingSample.members) OperatingSample.state.db).1.isOk =
      false := by decide +kernel

end OperatingStore

end PaaRuntime
