import PaaRuntime.Lib.JsonForm
import PaaRuntime.OperatingLog

/-!
# What the operating store reports

Every failure of `append` and of `get_by_subject` is meant to be an `OperatingRecordError` or an
`OperatingStoreError`. A text with a lone surrogate is what neither foresees: the decoder accepts it,
and binding it as a parameter raises an exception of another class.
-/

namespace PaaRuntime

/-! ## What the decoder accepts is finite -/

namespace Value

/-- Every float in the value is finite. -/
def AllFinite (v : Value Text) : Prop := ∀ s ∈ v.scalars, s.Finite

variable {v : Value Text} {m : Members Text} {l : List (Value Text)}

theorem allFinite_scalar {s : Scalar Text} (h : s.Finite) : (scalar s).AllFinite := by
  intro t ht
  rw [scalars, List.mem_singleton] at ht
  exact ht ▸ h

theorem allFinite_list (h : ∀ v ∈ l, v.AllFinite) : (list l).AllFinite := by
  intro s hs
  obtain ⟨v, hv, hsv⟩ := mem_scalars_list.1 hs
  exact h v hv s hsv

theorem allFinite_dict (h : ∀ e ∈ m, e.1.Finite ∧ e.2.AllFinite) : (dict m).AllFinite := by
  intro s hs
  obtain ⟨e, he, rfl | hsv⟩ := mem_scalars_dict.1 hs
  · exact (h e he).1
  · exact (h e he).2 s hsv

end Value

namespace Operating

open Value

variable {v : Value Text} {m : Members Text} {path : Text}

theorem finite_of_text {s : Text} (h : text v path = .ok s) : v.AllFinite := by
  rw [(text_ok.1 h).1]
  exact allFinite_scalar trivial

theorem finite_of_quantity (h : quantity v path = .ok ()) : v.AllFinite := by
  unfold quantity at h
  split at h
  · exact allFinite_scalar trivial
  · rename_i s _
    split at h
    · rename_i q hq
      refine allFinite_scalar ?_
      cases s with
      | float f => cases f <;> trivial
      | _ => trivial
    · exact absurd h fail_ne_ok
  · exact absurd h fail_ne_ok

/-- An object is finite whose members are. -/
theorem finite_of_object {required optional : List Text} (hv : v.Built)
    (h : object v path required optional = .ok m)
    (hm : ∀ k ∈ required ++ optional, ∀ x, m.get? k = some x → x.Built → x.AllFinite) :
    v.AllFinite := by
  obtain ⟨rfl, -, hnamed⟩ := object_ok.1 h
  cases hv with
  | dict m hnodup hbuilt =>
    refine allFinite_dict fun e he => ?_
    obtain ⟨k, hk, hkey⟩ := hnamed e he
    obtain ⟨key, x⟩ := e
    obtain rfl : key = .str k := hkey
    exact ⟨trivial, hm k hk x (Members.get?_of_mem hnodup he) (hbuilt _ he)⟩

theorem eachItem_ok {f : Scalar Text → Value Text → Decode Unit} (h : eachItem f m = .ok ()) :
    ∀ e ∈ m, f e.1 e.2 = .ok () := by
  induction m with
  | nil => exact fun e he => absurd he List.not_mem_nil
  | cons e m ih =>
    obtain ⟨k, v⟩ := e
    obtain ⟨_, hf, hrest⟩ := except_bind_ok.1 h
    exact List.forall_mem_cons.2 ⟨hf, ih hrest⟩

theorem discard_ok {α : Type} {x : Decode α} {u : Unit} : discard x = .ok u ↔ ∃ a, x = .ok a := by
  cases x <;> simp [discard, Functor.discard, Functor.mapConst, Except.map]

theorem finite_of_price (hv : v.Built) (h : price v path = .ok ()) : v.AllFinite := by
  unfold price at h
  split at h
  · exact allFinite_scalar trivial
  · simp only [except_bind_ok, subscript_ok, discard_ok] at h
    obtain ⟨m, hm, c, hc, _, ⟨_, htext⟩, b, hb, _, ⟨_, hbasis⟩, a, ha, _, -, a', ha', hquantity⟩ := h
    refine finite_of_object hv hm fun k hk x hx _ => ?_
    simp only [List.append_nil, List.mem_cons, List.not_mem_nil, or_false] at hk
    rcases hk with rfl | rfl | rfl
    · obtain rfl := Option.some.inj (hx.symm.trans hc)
      exact finite_of_text htext
    · obtain rfl := Option.some.inj (hx.symm.trans ha')
      exact finite_of_quantity hquantity
    · obtain rfl := Option.some.inj (hx.symm.trans hb)
      exact finite_of_text hbasis

theorem finite_of_subject (h : subject v = .ok ()) (hv : v.Built) : v.AllFinite := by
  obtain ⟨m, kind, id, rfl, hkind, -, hid⟩ := OperatingStore.subject_columns h
  obtain ⟨m', hm, -⟩ := except_bind_ok.1 h
  obtain ⟨hdict, -⟩ := object_ok.1 hm
  cases hdict
  refine finite_of_object hv hm fun k hk x hx _ => ?_
  simp only [List.append_nil, List.mem_cons, List.not_mem_nil, or_false] at hk
  rcases hk with rfl | rfl
  · obtain rfl := Option.some.inj (hx.symm.trans hkind)
    exact allFinite_scalar trivial
  · obtain rfl := Option.some.inj (hx.symm.trans hid)
    exact allFinite_scalar trivial

/-- An object is finite all of whose members pass a check that finite values pass. -/
theorem finite_of_eachItem {required : List Text} {f : Scalar Text → Value Text → Decode Unit}
    (hv : v.Built) (hm : object v path required = .ok m) (h : eachItem f m = .ok ())
    (hf : ∀ k v, f k v = .ok () → v.AllFinite) : v.AllFinite := by
  refine finite_of_object hv hm fun k _ x hx _ => ?_
  exact hf (.str k) x (eachItem_ok h _ (Members.mem_of_get? hx))

theorem finite_of_worker (hv : v.Built) (h : worker v = .ok ()) : v.AllFinite := by
  obtain ⟨m, hm, hitems⟩ := except_bind_ok.1 h
  refine finite_of_eachItem hv hm hitems fun k w hw => ?_
  obtain ⟨_, htext⟩ := discard_ok.1 hw
  exact finite_of_text htext

theorem finite_of_timestamps (hv : v.Built) (h : timestamps v = .ok ()) : v.AllFinite := by
  obtain ⟨m, hm, hitems⟩ := except_bind_ok.1 h
  refine finite_of_eachItem hv hm hitems fun k w hw => ?_
  obtain ⟨_, htext, -⟩ := except_bind_ok.1 hw
  exact finite_of_text htext

theorem finite_of_usage (h : usage v = .ok ()) : v.AllFinite := by
  unfold usage at h
  split at h
  · exact allFinite_scalar trivial
  · refine allFinite_dict fun e he => ?_
    obtain ⟨k, hk, hquantity⟩ := except_bind_ok.1 (eachItem_ok h e he)
    refine ⟨?_, finite_of_quantity hquantity⟩
    rw [Value.scalar.inj (text_ok.1 hk).1]
    trivial
  · exact absurd h fail_ne_ok

theorem finite_of_scope (h : scope v = .ok ()) : v.AllFinite := by
  unfold scope at h
  split at h
  · exact allFinite_scalar trivial
  · obtain ⟨_, htext⟩ := discard_ok.1 h
    exact finite_of_text htext

theorem finite_of_component {i : ℕ} (hv : v.Built) (h : component i v = .ok ()) :
    v.AllFinite := by
  simp only [component, except_bind_ok, subscript_ok, discard_ok] at h
  obtain ⟨m, hm, k, hk, _, ⟨_, hkind⟩, n, hn, _, ⟨_, hunit⟩, q, hq, _, hquantity, p, hp, hprice⟩ := h
  refine finite_of_object hv hm fun key hkey x hx hbuilt => ?_
  simp only [List.append_nil, List.mem_cons, List.not_mem_nil, or_false] at hkey
  rcases hkey with rfl | rfl | rfl | rfl
  · obtain rfl := Option.some.inj (hx.symm.trans hk)
    exact finite_of_text hkind
  · obtain rfl := Option.some.inj (hx.symm.trans hq)
    exact finite_of_quantity hquantity
  · obtain rfl := Option.some.inj (hx.symm.trans hn)
    exact finite_of_text hunit
  · obtain rfl := Option.some.inj (hx.symm.trans hp)
    exact finite_of_price hbuilt hprice

/-- The items of a list that all pass a check have passed it. -/
theorem checkEach_forall {α β : Type} {f : ℕ → α → Decode β} {l : List α} {bs : List β} {i : ℕ}
    (h : checkEach f i l = .ok bs) : ∀ a ∈ l, ∃ j b, f j a = .ok b := by
  induction l generalizing i bs with
  | nil => exact fun a ha => absurd ha List.not_mem_nil
  | cons a l ih =>
    obtain ⟨b, hb, hrest⟩ := except_bind_ok.1 h
    obtain ⟨cs, hcs, -⟩ := except_bind_ok.1 hrest
    exact List.forall_mem_cons.2 ⟨⟨i, b, hb⟩, ih hcs⟩

theorem finite_of_components (hv : v.Built) (h : components (some v) = .ok ()) : v.AllFinite := by
  unfold components at h
  split at h
  · contradiction
  · rename_i l hl
    cases hl
    obtain ⟨bs, hbs⟩ := discard_ok.1 h
    refine allFinite_list fun w hw => ?_
    obtain ⟨j, _, hcomponent⟩ := checkEach_forall hbs w hw
    cases hv with
    | list l hbuilt => exact finite_of_component (hbuilt w hw) hcomponent
  · exact absurd h fail_ne_ok

theorem finite_of_sourceReferences (h : sourceReferences v = .ok ()) : v.AllFinite := by
  unfold sourceReferences at h
  split at h
  · obtain ⟨strings, hstrings, -⟩ := except_bind_ok.1 h
    refine allFinite_list fun w hw => ?_
    obtain ⟨_, s, htext⟩ := checkEach_forall hstrings w hw
    exact finite_of_text htext
  · exact absurd h fail_ne_ok

theorem finite_of_declarationVersion {n : ℤ} (h : declarationVersion v = .ok n) : v.AllFinite := by
  obtain ⟨_, hquantity, -⟩ := except_bind_ok.1 h
  exact finite_of_quantity hquantity

/-- **What the decoder accepts is finite.** -/
theorem finite_of_decodeDocument {r : Value Text} (hv : v.Built) (h : decodeDocument v = .ok r) :
    v.AllFinite := by
  unfold decodeDocument checkRest at h
  simp only [except_bind_ok, except_pure_ok, subscript_ok, discard_ok] at h
  obtain ⟨m, hm, schema, hschema, _, hconst, id, hid, _, ⟨_, hidText⟩, t, ht, _, htask, version,
    hversion, n, hn, _, hrest, -⟩ := h
  obtain ⟨sc, hsc, _, hscope, su, hsu, _, hsubject, w, hw, _, hworker, u, hu, _, husage, p, hp, _,
    hprice, _, hcomponents, ts, hts, _, htimestamps, refs, hrefs, hsources⟩ := hrest
  -- the other members are found in the record that the version is replaced in
  have hset := fun {k} (h : k ≠ Text.lit "declaration_version") =>
    Members.get?_set_of_ne (m := m) (.int n) h
  refine finite_of_object hv hm fun key hkey x hx hbuilt => ?_
  have hfound := fun {k y} (h : k ≠ Text.lit "declaration_version")
      (hy : Members.get? (m.set "declaration_version" (.int n)) k = some y) =>
    (hset h).symm.trans hy
  simp only [List.mem_append, List.mem_cons, List.not_mem_nil, or_false] at hkey
  rcases hkey with (rfl | rfl | rfl | rfl | rfl | rfl | rfl | rfl | rfl | rfl | rfl) | rfl
  · obtain rfl := Option.some.inj (hx.symm.trans hschema)
    have htext := failIf_checks.passes.1 ⟨_, hconst⟩
    rw [decide_eq_false_iff_not, not_not, Value.text?_eq_some] at htext
    rw [htext]
    exact allFinite_scalar trivial
  · obtain rfl := Option.some.inj (hx.symm.trans hid)
    exact finite_of_text hidText
  · obtain rfl := Option.some.inj (hx.symm.trans ht)
    obtain ⟨_, htext, -⟩ := except_bind_ok.1 htask
    exact finite_of_text htext
  · obtain rfl := Option.some.inj (hx.symm.trans hversion)
    exact finite_of_declarationVersion hn
  · obtain rfl := Option.some.inj (hx.symm.trans (hfound (by decide +kernel) hsc))
    exact finite_of_scope hscope
  · obtain rfl := Option.some.inj (hx.symm.trans (hfound (by decide +kernel) hsu))
    exact finite_of_subject hsubject hbuilt
  · obtain rfl := Option.some.inj (hx.symm.trans (hfound (by decide +kernel) hw))
    exact finite_of_worker hbuilt hworker
  · obtain rfl := Option.some.inj (hx.symm.trans (hfound (by decide +kernel) hu))
    exact finite_of_usage husage
  · obtain rfl := Option.some.inj (hx.symm.trans (hfound (by decide +kernel) hp))
    exact finite_of_price hbuilt hprice
  · obtain rfl := Option.some.inj (hx.symm.trans (hfound (by decide +kernel) hts))
    exact finite_of_timestamps hbuilt htimestamps
  · obtain rfl := Option.some.inj (hx.symm.trans (hfound (by decide +kernel) hrefs))
    exact finite_of_sourceReferences hsources
  · rw [hset (by decide +kernel), hx] at hcomponents
    exact finite_of_components hbuilt hcomponents

end Operating

/-! ## Reports -/

namespace OperatingException

/-- The exceptions of the operating modules themselves. -/
def Own : OperatingException → Prop
  | operatingRecordError _ | operatingStoreError _ _ _ => True
  | _ => False

/-- `except (ValueError, TypeError, RecursionError)`. -/
def OfDumps : OperatingException → Prop
  | valueError _ | typeError _ | recursionError _ => True
  | _ => False

end OperatingException

namespace OperatingStore

open Operating

section

variable {v r : Value Text} {id kind subjectId : Text} {t : OperatingTable} {document : String}

section

variable [FloatText]

theorem text?_jsonForm : v.jsonForm.text? = v.text?.map Text.joined := by
  cases v with
  | scalar s => rw [Value.jsonForm_scalar]; cases s <;> rfl
  | list l => rw [Value.jsonForm_list]; rfl
  | dict m => rw [Value.jsonForm_dict]; rfl

omit [FloatText] in
/-- The names of the members that the columns are taken from. -/
theorem isName {name : Text}
    (h : name ∈ (["record_id", "declaration_version", "subject", "kind", "id"] : List Text)) :
    IsName name := by
  have hlow : ∀ s ∈ (["record_id", "declaration_version", "subject", "kind", "id"] : List Text),
      s.all (fun c => c.val < 0xD800) = true := by decide +kernel
  simp only [List.mem_cons, List.not_mem_nil, or_false] at h
  rcases h with rfl | rfl | rfl | rfl | rfl
  all_goals
    refine ⟨by decide +kernel, fun c hc => ?_, ?_, by decide +kernel⟩
    · exact of_decide_eq_true (List.all_eq_true.1 (hlow _ (by simp)) c hc)
    · rintro c ⟨⟩
      decide

/-- The record id comes back with its surrogate pairs joined. -/
theorem recordId_jsonForm (hv : v.Built) (hs : ∀ s ∈ v.scalars, s.isJson = true) :
    recordId v.jsonForm = (recordId v).map Text.joined := by
  unfold recordId
  rw [hv.member_jsonForm hs (isName (by simp)), Option.bind_map, Option.map_bind]
  exact congrArg _ (funext fun w => text?_jsonForm)

theorem subjectText_jsonForm (hv : v.Built) (hs : ∀ s ∈ v.scalars, s.isJson = true) {key : Text}
    (hkey : key ∈ (["kind", "id"] : List Text)) :
    subjectText v.jsonForm key = (subjectText v key).map Text.joined := by
  unfold subjectText
  rw [hv.member_jsonForm hs (isName (by simp))]
  cases hsubject : v.member "subject" with
  | none => rfl
  | some w =>
    have hw : w.Built := hv.member hsubject
    have hws : ∀ s ∈ w.scalars, s.isJson = true := fun s h =>
      hs s (Value.scalars_of_member hsubject h)
    show ((w.jsonForm).member key).bind _ = _
    rw [hw.member_jsonForm hws (isName (by simp_all)), Option.bind_map]
    show _ = ((w.member key).bind _).map _
    rw [Option.map_bind]
    exact congrArg _ (funext fun w => text?_jsonForm)

end

theorem bindText_ok {s s' : Text} : bindText s = .ok s' ↔ s.Encodable ∧ s = s' := by
  unfold bindText
  split_ifs with h <;> simp [h]

/-- The transaction binds the columns and inserts them. -/
theorem insertRecord_columns (hc : Columns v r id kind subjectId) :
    insertRecord document r (some t) = (do
      let id ← bindText id
      let kind ← bindText kind
      let subjectId ← bindText subjectId
      insertRow t id kind subjectId document) := by
  obtain ⟨subject, hsubject, hkind, hid⟩ := hc.subjectField
  simp only [insertRecord, hc.recordField, hsubject, Bind.bind, Except.bind, hkind, hid]
  rfl

theorem insertRow_error {e : OperatingException} (h : insertRow t id kind subjectId document = .error e) :
    ∃ message, e = .sqliteError message := by
  unfold insertRow at h
  split_ifs at h <;> cases h <;> exact ⟨_, rfl⟩

theorem insertRow_rows {t' : OperatingTable} (h : insertRow t id kind subjectId document = .ok t') :
    ∃ row, t'.rows = t.rows ++ [row] := by
  unfold insertRow at h
  split_ifs at h
  cases h
  exact ⟨_, rfl⟩

theorem Columns.encodable_kind (hc : Columns v r id kind subjectId) : kind.Encodable := by
  have hall : ∀ s ∈ (["case", "run"] : List Text), s.Encodable := by decide +kernel
  exact hall kind hc.supported

variable [JsonModule] [FloatText]

/-- What `json` is relied on for when it writes a value: it raises what `append` foresees, it writes
JSON scalars only, and what it has written is read back, as far as the recursion has room. -/
structure Writes (v : Value Text) : Prop where
  dumps_error : ∀ e, JsonModule.dumps v = .error e → e.OfDumps
  dumps_json : ∀ document, JsonModule.dumps v = .ok document → ∀ s ∈ v.scalars, s.isJson = true
  loads_dumps : ∀ document, JsonModule.dumps v = .ok document →
    JsonModule.loads (encodeUtf8 document) = .ok v.jsonForm ∨
      ∃ e, JsonModule.loads (encodeUtf8 document) = .error (.recursionError e)

/-- `json.dumps` writes the value, and the decoder accepts what it writes. -/
def Accepted (v : Value Text) : Prop :=
  ∃ document r, JsonModule.dumps v = .ok document ∧
    decodeOperatingRecord (encodeUtf8 document) = .ok r

/-- The record id and the subject's id have no surrogate that is not one of a pair. -/
def Bindable (v : Value Text) : Prop :=
  (∀ s, recordId v = some s → s.joined.Encodable) ∧
    ∀ s, subjectText v "id" = some s → s.joined.Encodable

/-- One row is committed, or an exception of the modules is raised and nothing changes. -/
def Reported (t : OperatingTable) (outcome : Decode Unit × OperatingDatabase) : Prop :=
  (∃ t' row, outcome = (.ok (), some t') ∧ t'.rows = t.rows ++ [row]) ∨
    ∃ e, outcome = (.error e, some t) ∧ e.Own

/-- What the serialization of a value leads to. -/
theorem serialize_cases (hv : v.Built) (hw : Writes v) :
    (∃ e, serialize v = .error e ∧ e.Own ∧ ¬ Accepted v) ∨
      ∃ document r, serialize v = .ok (document, r) ∧ Accepted v ∧ v.jsonForm.isJson = true ∧
        JsonModule.dumps v = .ok document ∧
        JsonModule.loads (encodeUtf8 document) = .ok v.jsonForm ∧ decodeDocument v.jsonForm = .ok r ∧
        ∀ s ∈ v.scalars, s.isJson = true := by
  rcases hdumps : JsonModule.dumps v with e | document
  · have hforeseen := hw.dumps_error e hdumps
    have hnot : ¬ Accepted v := by
      rintro ⟨document, r, hdocument, -⟩
      rw [hdumps] at hdocument
      cases hdocument
    refine .inl ?_
    unfold serialize
    rw [hdumps]
    cases e <;> first | exact ⟨_, rfl, trivial, hnot⟩ | exact False.elim hforeseen
  · have hserialize : serialize v = (do
        let checked ← decodeOperatingRecord (encodeUtf8 document)
        return (document, checked)) := by
      unfold serialize
      rw [hdumps]
    have haccepted : Accepted v ↔ ∃ r, decodeOperatingRecord (encodeUtf8 document) = .ok r := by
      constructor
      · rintro ⟨document', r, hdocument, hr⟩
        rw [hdumps] at hdocument
        cases hdocument
        exact ⟨r, hr⟩
      · rintro ⟨r, hr⟩
        exact ⟨document, r, hdumps, hr⟩
    have hjson := hv.isJson_jsonForm (hw.dumps_json document hdumps)
    rcases hw.loads_dumps document hdumps with hloads | ⟨e, hloads⟩
    · have hdecode := decodeOperatingRecord_of_loads hloads hjson
      rw [hserialize, haccepted, hdecode]
      rcases houtcome : decodeDocument v.jsonForm with e | r
      · have hown : e.IsRecordError := (decodeDocument_checks hjson).fails e houtcome
        refine .inl ⟨e, rfl, ?_, by simp⟩
        cases e <;> trivial
      · exact .inr ⟨document, r, rfl, ⟨r, rfl⟩, hjson, rfl, hloads, rfl,
          hw.dumps_json document hdumps⟩
    · have hdecode : decodeOperatingRecord (encodeUtf8 document) =
          .error (.operatingRecordError ("decode operating record: " ++ e)) := by
        unfold decodeOperatingRecord _decodeOperatingRecord
        rw [hloads]
        rfl
      rw [hserialize, haccepted, hdecode]
      exact .inl ⟨_, rfl, trivial, by simp⟩

omit [JsonModule] in
/-- The ids that are bound are the value's, with their pairs joined. -/
theorem bindable_iff (hv : v.Built) (hs : ∀ s ∈ v.scalars, s.isJson = true)
    (hc : Columns v.jsonForm r id kind subjectId) :
    Bindable v ↔ id.Encodable ∧ subjectId.Encodable := by
  have hid := hc.ofRecord
  have hsubject := hc.ofSubject
  rw [recordId_jsonForm hv hs] at hid
  rw [subjectText_jsonForm hv hs (by simp)] at hsubject
  obtain ⟨x, hx, rfl⟩ := Option.map_eq_some_iff.1 hid
  obtain ⟨y, hy, rfl⟩ := Option.map_eq_some_iff.1 hsubject
  simp [Bindable, hx, hy]

omit [FloatText] in
/-- Where the transaction raises anything but an `sqlite3.Error`, so does `append`. -/
theorem not_reported (h : serialize v = .ok (document, r)) {message : Text}
    (hinsert : insertRecord document r (some t) = .error (.valueError message)) :
    ¬ Reported t (append v (some t)) := by
  have happend : append v (some t) = (.error (.valueError message), some t) := by
    unfold append
    rw [h]
    dsimp only
    rw [hinsert]
  rintro (⟨t', row, hok, -⟩ | ⟨e, herror, hown⟩)
  · rw [happend] at hok
    cases hok
  · rw [happend] at herror
    cases herror
    exact hown

omit [FloatText] in
/-- Otherwise it reports. -/
theorem reported_of_insertRow (h : serialize v = .ok (document, r))
    (hinsert : insertRecord document r (some t) = insertRow t id kind subjectId document) :
    Reported t (append v (some t)) := by
  unfold append
  rw [h]
  dsimp only
  rw [hinsert]
  rcases hrow : insertRow t id kind subjectId document with e | t'
  · obtain ⟨message, rfl⟩ := insertRow_error hrow
    exact .inr ⟨_, rfl, trivial⟩
  · obtain ⟨row, hrows⟩ := insertRow_rows hrow
    exact .inl ⟨t', row, rfl, hrows⟩

/-- **Append reports** every failure in its own words exactly where the decoder accepts no lone
surrogate in the two ids. -/
theorem append_reported (hv : v.Built) (hw : Writes v) :
    Reported t (append v (some t)) ↔ (Accepted v → Bindable v) := by
  rcases serialize_cases hv hw with ⟨e, hserialize, hown, hnot⟩ |
    ⟨document, r, hserialize, haccepted, -, -, -, hr, hscalars⟩
  · refine iff_of_true (.inr ⟨e, ?_, hown⟩) fun h => absurd h hnot
    unfold append
    rw [hserialize]
  · obtain ⟨id, kind, subjectId, hc⟩ := decodeDocument_columns hr
    have hinsert : insertRecord document r (some t) = _ := insertRecord_columns hc
    have hkind : bindText kind = .ok kind := if_pos hc.encodable_kind
    rw [forall_prop_of_true haccepted, bindable_iff hv hscalars hc]
    by_cases hid : id.Encodable
    · rw [bindText, if_pos hid, hkind] at hinsert
      by_cases hsubject : subjectId.Encodable
      · rw [bindText, if_pos hsubject] at hinsert
        exact iff_of_true (reported_of_insertRow hserialize hinsert) ⟨hid, hsubject⟩
      · rw [bindText, if_neg hsubject] at hinsert
        exact iff_of_false (not_reported hserialize hinsert) fun h => hsubject h.2
    · rw [bindText, if_neg hid] at hinsert
      exact iff_of_false (not_reported hserialize hinsert) fun h => hid h.1

end

/-! ## What has been decoded -/

section

variable {v w r : Value Text} {m : Members Text} {data : List UInt8}

theorem set_self {k : Text} {x : Value Text} (hnodup : (m.map (·.1)).Nodup)
    (h : m.get? k = some x) : m.set k x = m := by
  unfold Members.set
  refine Value.map_eq_self.2 fun e he => ?_
  split_ifs with hk
  · obtain ⟨key, y⟩ := e
    obtain rfl : key = .str k := hk
    rw [Members.get?_of_mem hnodup he] at h
    rw [Option.some.inj h]
  · rfl

theorem set_set {k : Text} {x : Value Text} : (m.set k x).set k x = m.set k x := by
  unfold Members.set
  rw [List.map_map]
  refine List.map_congr_left fun e _ => ?_
  show (if (if e.1 = .str k then (e.1, x) else e).1 = .str k then _ else _) = _
  split_ifs with h <;> simp_all

theorem keys_set {k : Text} {x : Value Text} : (m.set k x).map (·.1) = m.map (·.1) := by
  unfold Members.set
  rw [List.map_map]
  refine List.map_congr_left fun e _ => ?_
  show (if e.1 = .str k then (e.1, x) else e).1 = e.1
  split_ifs <;> rfl

/-- A decoded record is a JSON document, if what it was decoded from is. -/
theorem isJson_of_normalized (hv : v.isJson = true) (h : VersionNormalized v r) :
    r.isJson = true := by
  obtain ⟨m, s, n, rfl, -, -, rfl⟩ := h
  obtain ⟨hnodup, htext, hjson⟩ := Value.isJson_dict.1 hv
  refine Value.isJson_dict.2 ⟨by rw [keys_set]; exact hnodup, fun e he => ?_, fun e he => ?_⟩
  all_goals
    obtain ⟨f, hf, rfl⟩ := List.mem_map.1 he
    split_ifs
  · exact htext f hf
  · exact htext f hf
  · rfl
  · exact hjson f hf

theorem isJson_of_mem_scalars {s : Scalar Text} (hv : v.isJson = true) (h : s ∈ v.scalars) :
    s.isJson = true := by
  have hbuilt := Value.built_of_isJson v hv
  induction hbuilt with
  | scalar t =>
    rw [Value.scalars, List.mem_singleton] at h
    exact h ▸ Value.isJson_scalar.symm.trans hv
  | list l _ ih =>
    obtain ⟨w, hw, hs⟩ := Value.mem_scalars_list.1 h
    exact ih w hw (Value.isJson_list.1 hv w hw) hs
  | dict m _ _ ih =>
    obtain ⟨-, htext, hjson⟩ := Value.isJson_dict.1 hv
    obtain ⟨e, he, rfl | hs⟩ := Value.mem_scalars_dict.1 h
    · obtain ⟨k, hk⟩ := htext e he
      rw [hk]
      rfl
    · exact ih e he (hjson e he) hs

/-- Decoding a decoded record leaves it as it is. -/
theorem decodeDocument_idem (h : decodeDocument v = .ok r) : decodeDocument r = .ok r := by
  unfold decodeDocument at h
  simp only [except_bind_ok, except_pure_ok, subscript_ok] at h
  obtain ⟨m, hm, schema, hschema, _, hconst, id, hid, _, hidText, t, ht, _, htask, version, hversion,
    n, hn, _, hrest, rfl⟩ := h
  obtain ⟨rfl, hrequired, hnamed⟩ := object_ok.1 hm
  have hset := fun {k} (h : k ≠ Text.lit "declaration_version") =>
    Members.get?_set_of_ne (m := m) (.int n) h
  have hsetSelf := Members.get?_set_self (v := .int n) hversion
  obtain ⟨_, _, _, hone⟩ := declarationVersion_ok.1 hn
  unfold decodeDocument
  simp only [except_bind_ok, except_pure_ok, subscript_ok]
  refine ⟨_, object_ok.2 ⟨rfl, fun k hk => ?_, fun e he => ?_⟩, schema,
    (hset (by decide +kernel)).trans hschema, _, hconst, id, (hset (by decide +kernel)).trans hid, _,
    hidText, t, (hset (by decide +kernel)).trans ht, _, htask, .int n, hsetSelf, n,
    declarationVersion_ok.2 ⟨.int n, rfl, rfl, hone⟩, (), by rw [set_set]; exact hrest, by rw [set_set]⟩
  · by_cases hversion : k = Text.lit "declaration_version"
    · rw [hversion]
      exact ⟨_, hsetSelf⟩
    · rw [hset hversion]
      exact hrequired k hk
  · obtain ⟨f, hf, rfl⟩ := List.mem_map.1 he
    obtain ⟨k, hk, hkey⟩ := hnamed f hf
    refine ⟨k, hk, ?_⟩
    split_ifs <;> exact hkey

/-- The record id is not the version. -/
theorem recordId_of_normalized (h : VersionNormalized v r) : recordId r = recordId v := by
  obtain ⟨m, s, n, rfl, -, -, rfl⟩ := h
  unfold recordId
  rw [Value.member_dict, Value.member_dict, Members.get?_set_of_ne _ (by decide +kernel)]

variable [FloatText]

/-- Where the form of a decoded record is decoded to the record, it is the record. -/
theorem jsonForm_of_normalized (hv : VersionNormalized v r) (hr : r.isJson = true)
    (h : VersionNormalized r.jsonForm r) : r.jsonForm = r := by
  have hbuilt := Value.built_of_isJson r hr
  obtain ⟨m₀, s₀, n₀, -, hm₀, -, hr₀⟩ := hv
  have hversion : r.member "declaration_version" = some (.int n₀) := by
    rw [hr₀]
    exact Members.get?_set_self hm₀
  have hform := hbuilt.member_jsonForm (fun s => isJson_of_mem_scalars hr)
    (@isName "declaration_version" (by simp))
  obtain ⟨m, s, n, hm, hs, hn, hset⟩ := h
  rw [hversion, hm, Value.member_dict, hs] at hform
  obtain rfl : s = .int n₀ := Value.scalar.inj (Option.some.inj hform)
  have hnn : n₀ = n := Rat.intCast_inj.1 (Option.some.inj hn)
  have hnodup : (m.map (·.1)).Nodup := by
    have hjson := hbuilt.isJson_jsonForm fun s => isJson_of_mem_scalars hr
    rw [hm] at hjson
    exact (Value.isJson_dict.1 hjson).1
  rw [hm, hset, ← hnn, set_self hnodup hs]

end

/-! ## Runs -/

section

variable {v w r : Value Text} {l : List (Value Text)} {t : OperatingTable} {data : List UInt8}
  {s s' : State} {id kind subjectId : Text} {document : String}

variable [JsonModule] [FloatText]

/-- The calls that may be made: an append of any value. -/
def Made (s : State) : Call → Prop
  | .connect _ => True
  | .append i record => s.connected i = true ∧ record.Built ∧ Writes record
  | .getBySubject i _ => s.connected i = true

/-- An append that returns has the form of the record at the end of the log. -/
theorem append_logs (h : Logged l t) (hv : v.Built) (hw : Writes v) :
    (∃ e, append v (some t) = (.error e, some t)) ∨ ∃ t', append v (some t) = (.ok (), some t') ∧
      Logged (l ++ [v.jsonForm]) t' ∧ Accepted v ∧ ∃ row, t'.rows = t.rows ++ [row] := by
  rcases serialize_cases hv hw with ⟨e, hserialize, -⟩ |
    ⟨document, r, hserialize, haccepted, hjson, -, hloads, hr, -⟩
  · refine .inl ⟨e, ?_⟩
    unfold append
    rw [hserialize]
  · obtain ⟨id, kind, subjectId, hc⟩ := decodeDocument_columns hr
    unfold append
    rw [hserialize]
    dsimp only
    rcases hinsert : insertRecord document r (some t) with e | t'
    · cases e <;> exact .inl ⟨_, rfl⟩
    · refine .inr ⟨t', rfl, ?_⟩
      rw [insertRecord_columns hc] at hinsert
      simp only [except_bind_ok, bindText_ok] at hinsert
      obtain ⟨_, ⟨-, rfl⟩, _, ⟨-, rfl⟩, _, ⟨-, rfl⟩, hrow⟩ := hinsert
      obtain ⟨-, rfl⟩ := (insertRow_ok hc.supported fun row hrow => (h.bounded row hrow).1).1 hrow
      refine ⟨?_, haccepted, _, rfl⟩
      exact h.concat ⟨hjson, hloads, ⟨r, hr⟩, hc.ofRecord, hc.ofKind, hc.ofSubject⟩ rfl

/-- Where a store has been opened, the table is a log. -/
def State.Logs (s : State) : Prop :=
  match s.db with
  | some t => ∃ l, Logged l t
  | none => ∀ i, s.connected i = false

omit [FloatText] in
theorem State.Logs.logged (h : s.Logs) (ht : s.db = some t) : ∃ l, Logged l t := by
  unfold State.Logs at h
  rw [ht] at h
  exact h

theorem logs_next (h : s.Logs) {c : Call} (hc : Made s c) : (next s c).Logs := by
  have hopened : ∀ {i}, s.connected i = true → ∃ t, s.db = some t := fun {i} hi => by
    unfold State.Logs at h
    split at h
    · next t ht => exact ⟨t, ht⟩
    · rw [h i] at hi
      cases hi
  cases c with
  | connect i =>
    show ∃ l, Logged l (createTable s.db)
    rcases hdb : s.db with _ | t
    · exact ⟨[], logged_created⟩
    · exact h.logged hdb
  | append i record =>
    obtain ⟨hi, hv, hw⟩ := hc
    obtain ⟨t, ht⟩ := hopened hi
    obtain ⟨l, hl⟩ := h.logged ht
    rcases append_logs hl hv hw with ⟨e, happend⟩ | ⟨t', happend, hlogged, -⟩ <;>
      simp only [next, ht, happend]
    · exact ⟨l, hl⟩
    · exact ⟨_, hlogged⟩
  | getBySubject i subject => exact h

theorem logs_run (h : Run next Made State.initial s) : s.Logs := by
  have hinitial : State.initial.Logs := fun _ => rfl
  exact h.invariant (fun _ _ hc hs => logs_next hs hc) hinitial

/-! ## Records that come back -/

/-- What `json` is relied on for when it reads data: keys are distinct texts and the scalars are
JSON's, but for `NaN` and the infinities; and what it has read it can write and read back, with an
integral version as an integer, where the recursion has room. -/
structure Rewrites (data : List UInt8) : Prop where
  loads_built : ∀ v, JsonModule.loads data = .ok v → v.Built ∧ (v.AllFinite → v.isJson = true)
  dumps_read : ∀ v r, JsonModule.loads data = .ok v → v.isJson = true →
    v.depth ≤ JsonModule.maxDepth → VersionNormalized v r →
      ∃ document, JsonModule.dumps r = .ok document ∧
        JsonModule.loads (encodeUtf8 document) = .ok r.jsonForm

/-- A record that is appended and is then among the records of its own subject. -/
def Returned (r : Value Text) (t : OperatingTable) : Prop :=
  ∃ t' kind id records, append r (some t) = (.ok (), some t') ∧ subjectText r "kind" = some kind ∧
    subjectText r "id" = some id ∧ getBySubject ⟨kind, id⟩ (some t') = .ok records ∧ r ∈ records

/-- What the decoder has read and accepted can be written again, and is accepted again. -/
theorem decoded (hdata : Rewrites data) (h : decodeOperatingRecord data = .ok r) :
    r.isJson = true ∧ Writes r ∧ decodeDocument r = .ok r ∧ (∃ v, VersionNormalized v r) ∧
      ∃ document, JsonModule.dumps r = .ok document ∧
        JsonModule.loads (encodeUtf8 document) = .ok r.jsonForm := by
  obtain ⟨v, hloads, hdecode⟩ : ∃ v, JsonModule.loads data = .ok v ∧ decodeDocument v = .ok r := by
    unfold decodeOperatingRecord at h
    split at h
    all_goals first | cases h | skip
    exact except_bind_ok.1 h
  obtain ⟨hbuilt, hfinite⟩ := hdata.loads_built v hloads
  have hjson := hfinite (finite_of_decodeDocument hbuilt hdecode)
  have hvalid := (decodeDocument_checks hjson).passes.1 ⟨r, hdecode⟩
  have hdepth := OperatingSchema.operatingSchema_depthLe v hjson hvalid
  have hnormalized := decodeDocument_normalizes hdecode
  have hr := isJson_of_normalized hjson hnormalized
  obtain ⟨document, hdumps, hread⟩ := hdata.dumps_read v r hloads hjson
    (hdepth.trans JsonModule.four_le_maxDepth) hnormalized
  refine ⟨hr, ⟨fun e he => ?_, fun _ _ s => isJson_of_mem_scalars hr, fun d hd => .inl ?_⟩,
    decodeDocument_idem hdecode, ⟨v, hnormalized⟩, document, hdumps, hread⟩
  · rw [hdumps] at he
    cases he
  · rw [hdumps] at hd
    cases hd
    exact hread

/-- A record that is returned has been written as it is. -/
theorem stable_of_returned (hl : Logged l t) (hr : r.isJson = true) (hwrites : Writes r)
    (hv : ∃ v, VersionNormalized v r) (hnew : ∀ row ∈ t.rows, recordId r ≠ some row.recordId)
    (h : Returned r t) : r.Stable := by
  obtain ⟨t', kind, id, records, happend, hkind, hid, hrecords, hmem⟩ := h
  obtain ⟨v, hv⟩ := hv
  rcases append_logs hl (Value.built_of_isJson r hr) hwrites with
    ⟨e, herror⟩ | ⟨t'', hok, hlogged, -⟩
  · rw [happend] at herror
    cases herror
  · rw [happend] at hok
    cases hok
    obtain ⟨_, hbindKind, hrest⟩ := except_bind_ok.1 hrecords
    obtain ⟨_, hbindId, -⟩ := except_bind_ok.1 hrest
    obtain ⟨records', hrecords', hnormalized⟩ := @getBySubject_ok _ _ _ ⟨kind, id⟩ hlogged
      (bindText_ok.1 hbindKind).1 (bindText_ok.1 hbindId).1
    rw [hrecords] at hrecords'
    cases hrecords'
    obtain ⟨w, hw, hwr⟩ := forall₂_mem_left hnormalized.flip hmem
    rcases List.mem_append.1 (List.mem_of_mem_filter hw) with hold | hform
    · -- its id was not there before
      obtain ⟨row, hrow, hstored⟩ := forall₂_mem_left hl.stored hold
      exact absurd ((recordId_of_normalized hwr).trans hstored.recordId) (hnew row hrow)
    · rw [List.mem_singleton.1 hform] at hwr
      exact (Value.jsonForm_eq_self hr).1 (jsonForm_of_normalized hv hr hwr)

/-- A record without surrogate pairs whose ids can be bound is returned. -/
theorem returned_of_stable (hl : Logged l t) (hr : r.isJson = true)
    (hdecode : decodeDocument r = .ok r)
    (hdumps : ∃ document, JsonModule.dumps r = .ok document ∧
      JsonModule.loads (encodeUtf8 document) = .ok r.jsonForm)
    (hnew : ∀ row ∈ t.rows, recordId r ≠ some row.recordId) (hbindable : Bindable r)
    (hstable : r.Stable) : Returned r t := by
  have hform : r.jsonForm = r := (Value.jsonForm_eq_self hr).2 hstable
  obtain ⟨document, hdumps, hloads⟩ := hdumps
  rw [hform] at hloads
  have hserialize : serialize r = .ok (document, r) := by
    unfold serialize
    rw [hdumps]
    dsimp only
    rw [decodeOperatingRecord_of_loads hloads hr, hdecode]
    rfl
  obtain ⟨id, kind, subjectId, hc⟩ := decodeDocument_columns hdecode
  have hencodable := (bindable_iff (Value.built_of_isJson r hr) (fun s => isJson_of_mem_scalars hr)
    (hform.symm ▸ hc)).1 hbindable
  have hid : ∀ row ∈ t.rows, row.recordId ≠ id := fun row hrow heq =>
    hnew row hrow (heq ▸ hc.ofRecord)
  have hrow : insertRow t id kind subjectId document = .ok _ :=
    (insertRow_ok hc.supported fun row hrow => (hl.bounded row hrow).1).2 ⟨hid, rfl⟩
  have hinsert : insertRecord document r (some t) = _ := insertRecord_columns hc
  rw [bindText, if_pos hencodable.1, bindText, if_pos hc.encodable_kind, bindText,
    if_pos hencodable.2] at hinsert
  have hlogged : Logged (l ++ [r]) ⟨t.rows ++ [⟨t.lastSequence + 1, id, kind, subjectId, document⟩],
      t.lastSequence + 1⟩ :=
    hl.concat ⟨hr, hloads, ⟨r, hdecode⟩, hc.ofRecord, hc.ofKind, hc.ofSubject⟩ rfl
  obtain ⟨records, hrecords, hnormalized⟩ := @getBySubject_ok _ _ _ ⟨kind, subjectId⟩ hlogged
    hc.encodable_kind hencodable.2
  refine ⟨_, kind, subjectId, records, ?_, hc.ofKind, hc.ofSubject, hrecords, ?_⟩
  · unfold append
    rw [hserialize]
    dsimp only
    rw [hinsert.trans hrow]
  · have hlast : r ∈ (l ++ [r]).filter (hasSubject ⟨kind, subjectId⟩) :=
      List.mem_filter.2 ⟨List.mem_append_right l (List.mem_singleton_self r),
        by simp [hasSubject, hc.ofKind, hc.ofSubject]⟩
    obtain ⟨r', hr', hnormal⟩ := forall₂_mem_left hnormalized hlast
    rwa [versionNormalized_unique (decodeDocument_normalizes hdecode) hnormal]

/-- **What is accepted under a new id comes back** exactly where its ids can be bound and none of its
texts has a surrogate pair. -/
theorem returned_iff (hl : Logged l t) (hdata : Rewrites data)
    (h : decodeOperatingRecord data = .ok r) (hnew : ∀ row ∈ t.rows, recordId r ≠ some row.recordId) :
    Returned r t ↔ Bindable r ∧ r.Stable := by
  obtain ⟨hr, hw, hdecode, hv, hdumps⟩ := decoded hdata h
  have hbuilt := Value.built_of_isJson r hr
  constructor
  · intro hreturned
    have hstable := stable_of_returned hl hr hw hv hnew hreturned
    obtain ⟨t', _, _, _, happend, -⟩ := hreturned
    rcases append_logs hl hbuilt hw with ⟨e, herror⟩ | ⟨t'', hok, -, haccepted, row, hrows⟩
    · rw [happend] at herror
      cases herror
    · have hreported : Reported t (append r (some t)) := .inl ⟨t'', row, hok, hrows⟩
      exact ⟨(append_reported hbuilt hw).1 hreported haccepted, hstable⟩
  · rintro ⟨hbindable, hstable⟩
    exact returned_of_stable hl hr hdecode hdumps hnew hbindable hstable

omit [FloatText] in
/-- A lookup reports its failures in its own words exactly on a subject that can be bound. -/
theorem getBySubject_reported (hl : Logged l t) (subject : RecordSubject) :
    ((∃ records, getBySubject subject (some t) = .ok records) ∨
        ∃ e, getBySubject subject (some t) = .error e ∧ e.Own) ↔
      subject.kind.Encodable ∧ subject.id.Encodable := by
  constructor
  · rintro (⟨records, h⟩ | ⟨e, h, hown⟩)
    · obtain ⟨_, hkind, hrest⟩ := except_bind_ok.1 h
      obtain ⟨_, hid, -⟩ := except_bind_ok.1 hrest
      exact ⟨(bindText_ok.1 hkind).1, (bindText_ok.1 hid).1⟩
    · by_cases hkind : subject.kind.Encodable
      · by_cases hid : subject.id.Encodable
        · exact ⟨hkind, hid⟩
        · rw [getBySubject, bindText, if_pos hkind, bindText, if_neg hid] at h
          cases h
          exact hown.elim
      · rw [getBySubject, bindText, if_neg hkind] at h
        cases h
        exact hown.elim
  · rintro ⟨hkind, hid⟩
    obtain ⟨records, hrecords, -⟩ := getBySubject_ok hl hkind hid
    exact .inl ⟨records, hrecords⟩

/-- **What the store reports**: an append of any value to any table, what comes back of a record
that is accepted under a new id, and a lookup. -/
theorem reports_iff :
    (∀ v t, v.Built → Writes v → (Reported t (append v (some t)) ↔ (Accepted v → Bindable v))) ∧
    ∀ s t, Run next Made State.initial s → s.db = some t →
      (∀ data r, Rewrites data → decodeOperatingRecord data = .ok r →
        (∀ row ∈ t.rows, recordId r ≠ some row.recordId) →
          (Returned r t ↔ Bindable r ∧ r.Stable)) ∧
      ∀ subject, ((∃ records, getBySubject subject (some t) = .ok records) ∨
          ∃ e, getBySubject subject (some t) = .error e ∧ e.Own) ↔
        subject.kind.Encodable ∧ subject.id.Encodable := by
  refine ⟨fun v t hv hw => append_reported hv hw, fun s t hrun ht => ?_⟩
  obtain ⟨l, hl⟩ := (logs_run hrun).logged ht
  exact ⟨fun data r hdata h hnew => returned_iff hl hdata h hnew,
    fun subject => getBySubject_reported hl subject⟩

end

end OperatingStore

namespace OperatingSample

open OperatingStore

/-- The sample record under another id, with an integer as version. -/
def recordWith (id : Text) : Value Text :=
  .dict ((Members.set members "record_id" (.str id)).set "declaration_version" (.int 2))

/-- The record as JSON, with the id as it is escaped. -/
def documentWith (escape : String) : String :=
  "\x7b\"record_schema\": \"paa-operating-record/0.1.0-draft\", " ++
  "\"record_id\": \"" ++ escape ++ "\", \"task\": \"reply_draft\", \"declaration_version\": 2, " ++
  "\"scope\": null, \"subject\": \x7b\"kind\": \"run\", \"id\": \"run-1\"\x7d, " ++
  "\"worker\": \x7b\"id\": \"drafter\", \"version\": \"v1\", " ++
  "\"configuration_ref\": \"cfg:1\"\x7d, " ++
  "\"usage\": \x7b\"input_tokens\": 100, \"output_tokens\": null\x7d, \"price\": null, " ++
  "\"timestamps\": \x7b\"started_at\": \"2026-01-01T00:00:00Z\", " ++
  "\"completed_at\": \"2026-01-01T00:00:01Z\", " ++
  "\"recorded_at\": \"2026-01-01T00:00:02Z\"\x7d, " ++
  "\"source_references\": [\"app://usage/run-1/attempt-1\"]\x7d"

theorem four_le_depth : 4 ≤ 900 := by omega

/-- A `json` module that knows that document. -/
@[reducible] def jsonWith (id : Text) (escape : String) : JsonModule where
  loads data := if data = encodeUtf8 (documentWith escape) then .ok (recordWith id)
    else .error (.valueError "Expecting value: line 1 column 1 (char 0)")
  dumps v := if v.same (recordWith id) then .ok (documentWith escape)
    else .error (.typeError "Object of type object is not JSON serializable")
  maxDepth := 900
  four_le_maxDepth := four_le_depth

/-- The repr of the one float of the samples. -/
@[reducible] def floatText : FloatText where
  repr _ := "2.0"
  repr_head q := ⟨_, _, rfl, .inr (by decide)⟩

/-- A high surrogate on its own. -/
def lone : Text := [0xD800]

theorem stable_recordWith {id : Text} (h : id = lone ∨ id = "attempt-2") :
    (recordWith id).Stable := by
  have hall : ∀ s ∈ (recordWith id).scalars,
      (Operating.keyText s).joined = Operating.keyText s := by
    rcases h with rfl | rfl <;> decide +kernel
  exact fun s hs => hall _ hs

theorem isJson_recordWith {id : Text} (h : id = lone ∨ id = "attempt-2") :
    (recordWith id).isJson = true := by
  rcases h with rfl | rfl <;> decide +kernel

/-- A record whose id has no encoding is a JSON document all the same. -/
example : (recordWith lone).isJson = true ∧ ¬ lone.Encodable := by decide +kernel

section

variable {id : Text} {escape : String}

theorem dumps_recordWith (h : id = lone ∨ id = "attempt-2") :
    (jsonWith id escape).dumps (recordWith id) = .ok (documentWith escape) := by
  refine if_pos ?_
  rcases h with rfl | rfl <;> decide +kernel

theorem loads_documentWith : (jsonWith id escape).loads (encodeUtf8 (documentWith escape)) =
    .ok (recordWith id) := if_pos rfl

theorem writes_recordWith (h : id = lone ∨ id = "attempt-2") :
    @Writes (jsonWith id escape) floatText (recordWith id) := by
  refine @Writes.mk (jsonWith id escape) floatText _ (fun e he => ?_)
    (fun _ _ s => isJson_of_mem_scalars (isJson_recordWith h)) fun d hd => .inl ?_
  · rw [dumps_recordWith h] at he
    cases he
  · rw [dumps_recordWith h] at hd
    cases hd
    rw [loads_documentWith,
      (@Value.jsonForm_eq_self floatText _ (isJson_recordWith h)).2 (stable_recordWith h)]

theorem normalized_recordWith {r : Value Text} (h : VersionNormalized (recordWith id) r) :
    r = recordWith id := by
  obtain ⟨m, s, n, hm, hs, hn, rfl⟩ := h
  have hversion : (recordWith id).member "declaration_version" = some (.int 2) := by
    refine @Members.get?_set_self _ _ _ _ _ (.scalar (.float (.finite 2))) ?_
    rw [Members.get?_set_of_ne _ (by decide +kernel)]
    rfl
  rw [hm, Value.member_dict, hs] at hversion
  obtain rfl : s = .int 2 := Value.scalar.inj (Option.some.inj hversion)
  have hnn : (2 : ℤ) = n := Rat.intCast_inj.1 (Option.some.inj hn)
  have hset := set_set (m := Members.set members "record_id" (.str id))
    (k := "declaration_version") (x := .int 2)
  cases hm
  rw [← hnn, hset]
  rfl

theorem decode_documentWith (h : id = lone ∨ id = "attempt-2") :
    @decodeOperatingRecord (jsonWith id escape) (encodeUtf8 (documentWith escape)) =
      .ok (recordWith id) := by
  have hok : (Operating.decodeDocument (recordWith id)).isOk = true := by
    rcases h with rfl | rfl <;> decide +kernel
  rw [@decodeOperatingRecord_of_loads _ _ (jsonWith id escape) loads_documentWith
    (isJson_recordWith h)]
  rcases hr : Operating.decodeDocument (recordWith id) with e | r
  · rw [hr] at hok
    cases hok
  · rw [normalized_recordWith (Operating.decodeDocument_normalizes hr)]

theorem rewrites_documentWith (h : id = lone ∨ id = "attempt-2") :
    @Rewrites (jsonWith id escape) floatText (encodeUtf8 (documentWith escape)) := by
  have hjson := isJson_recordWith h
  refine @Rewrites.mk (jsonWith id escape) floatText _ (fun v hv => ?_) fun v r hv _ _ hr => ?_
  · rw [loads_documentWith] at hv
    cases hv
    exact ⟨Value.built_of_isJson _ hjson, fun _ => hjson⟩
  · rw [loads_documentWith] at hv
    cases hv
    rw [normalized_recordWith hr, (@Value.jsonForm_eq_self floatText _ hjson).2 (stable_recordWith h)]
    exact ⟨_, dumps_recordWith h, loads_documentWith⟩

end

end OperatingSample

namespace OperatingStore

open OperatingSample

/-- A record without surrogates is appended to an empty table, and comes back. -/
theorem reports_iff_sample :
    @Reported ⟨[], 0⟩ (@append (jsonWith "attempt-2" "attempt-2") (recordWith "attempt-2")
      (some ⟨[], 0⟩)) ∧
    @Returned (jsonWith "attempt-2" "attempt-2") (recordWith "attempt-2") ⟨[], 0⟩ := by
  have hjson := @isJson_recordWith "attempt-2" (.inr rfl)
  have hbindable : Bindable (recordWith "attempt-2") := by
    have hids : recordId (recordWith "attempt-2") = some "attempt-2" ∧
        subjectText (recordWith "attempt-2") "id" = some "run-1" := by decide +kernel
    have htexts : ∀ s ∈ (["attempt-2", "run-1"] : List Text), s.joined.Encodable := by decide +kernel
    refine ⟨fun s hs => ?_, fun s hs => ?_⟩
    · rw [hids.1] at hs
      exact Option.some.inj hs ▸ htexts _ (.head _)
    · rw [hids.2] at hs
      exact Option.some.inj hs ▸ htexts _ (.tail _ (.head _))
  have hrun : Run (@next (jsonWith "attempt-2" "attempt-2"))
      (@Made (jsonWith "attempt-2" "attempt-2") floatText) State.initial
      (@next (jsonWith "attempt-2" "attempt-2") State.initial (.connect 0)) :=
    @Run.single _ _ _ (@Made (jsonWith "attempt-2" "attempt-2") floatText) State.initial
      (.connect 0) trivial
  have hreports := @reports_iff (jsonWith "attempt-2" "attempt-2") floatText
  exact ⟨(hreports.1 _ _ (Value.built_of_isJson _ hjson) (writes_recordWith (.inr rfl))).2
      fun _ => hbindable,
    ((hreports.2 _ ⟨[], 0⟩ hrun rfl).1 _ _ (rewrites_documentWith (.inr rfl))
      (decode_documentWith (.inr rfl)) (by simp)).2 ⟨hbindable, stable_recordWith (.inr rfl)⟩⟩

/-- The decoder accepts a record whose id is a lone surrogate, and `append` raises no exception of
the modules on it. -/
theorem reports_fails :
    @decodeOperatingRecord (jsonWith lone "\\ud800") (encodeUtf8 (documentWith "\\ud800")) =
        .ok (recordWith lone) ∧
      (recordWith lone).Built ∧ @Writes (jsonWith lone "\\ud800") floatText (recordWith lone) ∧
      ¬ @Reported ⟨[], 0⟩ (@append (jsonWith lone "\\ud800") (recordWith lone) (some ⟨[], 0⟩)) := by
  have hdecode := @decode_documentWith lone "\\ud800" (.inl rfl)
  have hbuilt := Value.built_of_isJson _ (@isJson_recordWith lone (.inl rfl))
  have hwrites := @writes_recordWith lone "\\ud800" (.inl rfl)
  refine ⟨hdecode, hbuilt, hwrites, fun hreported => ?_⟩
  have haccepted := ((@append_reported _ _ (jsonWith lone "\\ud800") floatText hbuilt hwrites).1
    hreported) ⟨_, _, dumps_recordWith (.inl rfl), hdecode⟩
  have hid : recordId (recordWith lone) = some lone ∧ ¬ lone.joined.Encodable := by decide +kernel
  exact hid.2 (haccepted.1 lone hid.1)

end OperatingStore

end PaaRuntime
