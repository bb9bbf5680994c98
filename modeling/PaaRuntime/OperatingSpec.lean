import PaaRuntime.OperatingSchema

/-!
# What the operating decoder accepts

Each check decides its part of the published schema: it passes exactly on what the part accepts of a
JSON document, and fails with `OperatingRecordError` only.
-/

namespace PaaRuntime

/-- A check passes exactly when `S` holds, and fails with `OperatingRecordError` only. -/
abbrev Checks {α : Type} (x : Decode α) (S : Prop) : Prop :=
  Decides OperatingException.IsRecordError x S

namespace Operating

open Schema Pattern

variable {α β : Type} {v x : Value Text} {m : Members Text} {s path detail key : Text} {S : Prop}

/-! ## Checks of one value -/

theorem fail_ne_ok {a : α} : (fail path detail : Decode α) ≠ .ok a := by
  simp [fail]

theorem fail_checks : Checks (fail path detail : Decode α) False := .error trivial

theorem failIf_checks {condition : Bool} : Checks (failIf condition path detail) (condition = false) := by
  cases condition
  · exact (Decides.ok ()).congr (by simp)
  · exact fail_checks.congr (by simp)

theorem subscript_ok : subscript m key = .ok x ↔ m.get? key = some x := by
  unfold subscript
  split <;> simp_all

/-- A member that is there is found. -/
theorem subscript_checks {f : Value Text → Decode β} (h : m.get? key = some x)
    (hf : Checks (f x) S) : Checks (subscript m key >>= f) S := by
  unfold subscript
  rw [h]
  exact hf

theorem forall_found {P : Value Text → Prop} (h : m.get? key = some x) :
    (∀ y, m.get? key = some y → P y) ↔ P x := by
  simp [h]

theorem text_ok : text v path = .ok s ↔ v = .str s ∧ s ≠ [] := by
  unfold text
  split
  · rename_i t
    split_ifs with h
    · subst h
      refine iff_of_false fail_ne_ok ?_
      rintro ⟨h, hs⟩
      cases h
      exact hs rfl
    · refine ⟨fun hs => ?_, fun hs => ?_⟩
      · cases hs
        exact ⟨rfl, h⟩
      · cases hs.1
        rfl
  · rename_i h
    refine iff_of_false fail_ne_ok ?_
    rintro ⟨rfl, -⟩
    exact h s rfl

theorem text_checks : Checks (text v path) (OperatingSchema.text v = true) := by
  constructor
  · simp only [text_ok, OperatingSchema.text_iff]
  · unfold text
    split
    · split_ifs
      · exact fail_checks.fails
      · exact failsOnly_ok _
    · exact fail_checks.fails

theorem quantity_checks (hv : v.isJson = true) :
    Checks (quantity v path) (OperatingSchema.quantity v = true) := by
  refine Decides.congr ?_ (OperatingSchema.quantity_iff hv).symm
  unfold quantity
  split
  · exact (Decides.ok ()).congr (by simp)
  · rename_i s hnull
    cases hs : s.number? with
    | none => exact fail_checks.congr (by simp_all)
    | some q =>
      dsimp only
      split_ifs with hq
      · have hneg : ¬ 0 ≤ q := Rat.not_le.2 hq
        exact fail_checks.congr (by simp_all)
      · have hpos : 0 ≤ q := Rat.not_lt.1 hq
        exact (Decides.ok ()).congr (by simp_all)
  · rename_i h
    refine fail_checks.congr (iff_of_false not_false ?_)
    rintro (rfl | ⟨s, q, rfl, -⟩)
    · exact h _ rfl
    · exact h s rfl

example : OperatingSchema.quantity (.scalar .null) = true := by decide +kernel

/-! ## Objects -/

theorem object_ok {required optional : List Text} :
    object v path required optional = .ok m ↔
      v = .dict m ∧ (∀ k ∈ required, ∃ x, m.get? k = some x) ∧
        ∀ e ∈ m, ∃ k ∈ required ++ optional, e.1 = .str k := by
  unfold object
  split
  · rename_i result
    split_ifs with h₁ h₂
    · obtain ⟨e, he, htext⟩ := List.any_eq_true.1 h₁
      refine iff_of_false fail_ne_ok ?_
      rintro ⟨hm, -, hnamed⟩
      cases hm
      obtain ⟨k, -, hk⟩ := hnamed e he
      simp [hk, Scalar.isText] at htext
    · refine iff_of_false fail_ne_ok ?_
      rintro ⟨hm, hrequired, hnamed⟩
      cases hm
      rcases Bool.or_eq_true_iff.1 h₂ with h | h
      · obtain ⟨k, hk, hnone⟩ := List.any_eq_true.1 h
        obtain ⟨x, hx⟩ := hrequired k hk
        simp [hx] at hnone
      · obtain ⟨e, he, hne⟩ := List.any_eq_true.1 h
        obtain ⟨k, hk, hek⟩ := hnamed e he
        exact of_decide_eq_true hne (List.mem_map.2 ⟨k, hk, hek.symm⟩)
    · simp only [Bool.or_eq_true, not_or, Bool.not_eq_true, List.any_eq_false,
        Option.isNone_iff_eq_none, ← ne_eq, Option.ne_none_iff_exists', decide_eq_true_eq,
        not_not, List.mem_map] at h₂
      constructor
      · intro h
        cases h
        exact ⟨rfl, h₂.1, fun e he => (h₂.2 e he).imp fun k hk => ⟨hk.1, hk.2.symm⟩⟩
      · rintro ⟨h, -⟩
        cases h
        rfl
  · rename_i h
    refine iff_of_false fail_ne_ok ?_
    rintro ⟨rfl, -⟩
    exact h m rfl

theorem object_refuses {required optional : List Text} :
    FailsOnly OperatingException.IsRecordError (object v path required optional) := by
  unfold object
  split
  · split_ifs
    · exact fail_checks.fails
    · exact fail_checks.fails
    · exact failsOnly_ok _
  · exact fail_checks.fails

/-- Checks of an object's members decide the schema of the object. -/
theorem object_checks {required optional : List Text} {props : List (Text × Schema Text)}
    {f : Members Text → Decode β} (hkeys : (required ++ optional).Perm (props.map (·.1)))
    (hf : ∀ m : Members Text, v = .dict m → (∀ k ∈ required, ∃ x, m.get? k = some x) →
      (∀ e ∈ m, ∃ p ∈ props, e.1 = .str p.1) →
        Checks (f m) (∀ p ∈ props, ∀ x, m.get? p.1 = some x → p.2 x = true)) :
    Checks (object v path required optional >>= f)
      (allOf [type [.object], members required props] v = true) := by
  have hobject : ∀ {m : Members Text}, object v path required optional = .ok m ↔
      v = .dict m ∧ (∀ k ∈ required, ∃ x, m.get? k = some x) ∧
        ∀ e ∈ m, ∃ p ∈ props, e.1 = .str p.1 := fun {m} => by
    simp only [object_ok, hkeys.mem_iff, List.mem_map, exists_exists_and_eq_and]
  constructor
  · simp only [except_bind_ok, hobject, object_iff]
    constructor
    · rintro ⟨b, m, ⟨hv, hreq, hnamed⟩, hb⟩
      exact ⟨m, hv, hreq, hnamed, (hf m hv hreq hnamed).passes.1 ⟨b, hb⟩⟩
    · rintro ⟨m, hv, hreq, hnamed, hprops⟩
      obtain ⟨b, hb⟩ := (hf m hv hreq hnamed).passes.2 hprops
      exact ⟨b, m, ⟨hv, hreq, hnamed⟩, hb⟩
  · refine failsOnly_bind.2 ⟨object_refuses, fun m hm => ?_⟩
    obtain ⟨hv, hreq, hnamed⟩ := hobject.1 hm
    exact (hf m hv hreq hnamed).fails

/-- Checks of every member decide the members' schemas. -/
theorem eachItem_checks {f : Scalar Text → Value Text → Decode Unit}
    {C : Scalar Text → Value Text → Prop} (h : ∀ e ∈ m, Checks (f e.1 e.2) (C e.1 e.2)) :
    Checks (eachItem f m) (∀ e ∈ m, C e.1 e.2) := by
  induction m with
  | nil => exact (Decides.ok ()).congr (by simp)
  | cons e m ih =>
    exact ((h e List.mem_cons_self).bind fun _ _ =>
      ih fun e he => h e (List.mem_cons_of_mem _ he)).congr (by simp)

/-- Where the named members are all there are and share a schema, every member has it. -/
theorem forall_props {props : List (Text × Schema Text)} {c : Schema Text}
    (hnodup : (m.map (·.1)).Nodup) (hnamed : ∀ e ∈ m, ∃ p ∈ props, e.1 = .str p.1)
    (hsame : ∀ p ∈ props, p.2 = c) :
    (∀ e ∈ m, c e.2 = true) ↔ ∀ p ∈ props, ∀ x, m.get? p.1 = some x → p.2 x = true := by
  constructor
  · rintro h p hp x hx
    rw [hsame p hp]
    exact h _ (Members.mem_of_get? hx)
  · rintro h ⟨k, x⟩ he
    obtain ⟨p, hp, rfl⟩ := hnamed _ he
    rw [← hsame p hp]
    exact h p hp x (Members.get?_of_mem hnodup he)

/-! ## Parts of the record -/

theorem price_checks (hv : v.isJson = true) :
    Checks (price v path) (OperatingSchema.price v = true) := by
  unfold price
  split
  · exact (Decides.ok ()).congr (iff_of_true trivial (by decide +kernel))
  · rename_i hnull
    rw [OperatingSchema.price, allOf_or_null hnull]
    refine object_checks (by decide +kernel) fun m hm hreq _ => ?_
    subst hm
    simp only [List.forall_mem_cons] at hreq
    obtain ⟨⟨currency, hcurrency⟩, ⟨amount, hamount⟩, ⟨basis, hbasis⟩, -⟩ := hreq
    have hjson := (Value.isJson_dict.1 hv).2.2 _ (Members.mem_of_get? hamount)
    refine (subscript_checks hcurrency (text_checks.discard.bind fun _ _ =>
      subscript_checks hbasis (text_checks.discard.bind fun _ _ =>
        subscript_checks hamount (failIf_checks.bind fun _ _ =>
          subscript_checks hamount (quantity_checks hjson))))).congr ?_
    simp only [List.forall_mem_cons, forall_found hcurrency, forall_found hamount,
      forall_found hbasis, OperatingSchema.amount_iff]
    tauto

theorem subject_checks : Checks (subject v) (OperatingSchema.subject v = true) := by
  refine object_checks (by decide +kernel) fun m _ hreq _ => ?_
  simp only [List.forall_mem_cons] at hreq
  obtain ⟨⟨kind, hkind⟩, ⟨id, hid⟩, -⟩ := hreq
  refine (subscript_checks hkind (failIf_checks.bind fun _ _ =>
    subscript_checks hid text_checks.discard)).congr ?_
  rw [List.forall_mem_cons, List.forall_mem_singleton, forall_found hkind, forall_found hid,
    OperatingSchema.subjectKind_iff]

theorem worker_checks (hv : v.isJson = true) :
    Checks (worker v) (OperatingSchema.worker v = true) := by
  refine object_checks (by decide +kernel) fun m hm _ hnamed => ?_
  subst hm
  exact (eachItem_checks (C := fun _ v => OperatingSchema.text v = true)
    fun e _ => text_checks.discard).congr
      (forall_props (Value.isJson_dict.1 hv).1 hnamed (by simp))

/-- The calendar has the day, or there is a `ValueError`. -/
theorem fromisoformat_cases (s : Text) :
    fromisoformat s = .ok () ∨ ∃ message, fromisoformat s = .error (.valueError message) := by
  unfold fromisoformat
  dsimp only
  split_ifs
  · exact .inr ⟨_, rfl⟩
  · exact .inr ⟨_, rfl⟩
  · exact .inr ⟨_, rfl⟩
  · exact .inl rfl

/-- The value is a timestamp: of the pattern, and on a day that the calendar has. -/
def IsTimestamp (v : Value Text) : Prop :=
  ∃ s, v = .str s ∧ s ≠ [] ∧ fullmatch stampPattern s = true ∧ ∃ u, calendarDay s [] = .ok u

theorem calendarDay_checks : Checks (calendarDay s path) (∃ u, calendarDay s [] = .ok u) := by
  unfold calendarDay
  rcases fromisoformat_cases (s.upper.replace 'Z' "+00:00") with h | ⟨m, h⟩ <;> rw [h]
  · exact (Decides.ok ()).congr (by simp)
  · exact fail_checks.congr (iff_of_false not_false fun h => fail_ne_ok h.choose_spec)

theorem timestamp_isTimestamp : Checks (timestamp v path) (IsTimestamp v) := by
  have hstamp : ∀ s, text v path = .ok s → Checks
      (do failIf (!fullmatch stampPattern s) path "expected an RFC 3339 date-time with timezone"
          calendarDay s path) (IsTimestamp v) := fun s hs => by
    obtain ⟨rfl, hne⟩ := text_ok.1 hs
    refine (failIf_checks.bind fun _ _ => calendarDay_checks).congr ?_
    simp [IsTimestamp, hne]
  refine (text_checks.bind hstamp).congr (and_iff_right_of_imp ?_)
  rintro ⟨s, rfl, hne, -⟩
  exact OperatingSchema.text_iff.2 ⟨s, rfl, hne⟩

theorem timestamp_checks : Checks (timestamp v path) (OperatingSchema.timestamp v = true) := by
  have hformat : ∀ s, OperatingSchema.dateTime s = true ↔ IsTimestamp (.str s) := fun s => by
    rw [← (@timestamp_isTimestamp _ []).passes, OperatingSchema.dateTime]
    rcases timestamp (.str s) [] with e | u <;> simp [Except.isOk, Except.toBool]
  refine timestamp_isTimestamp.congr ?_
  simp only [OperatingSchema.timestamp, allOf_iff, List.forall_mem_cons, type_string_iff]
  constructor
  · rintro ⟨s, rfl, h⟩
    exact ⟨⟨s, rfl⟩, format_str.2 ((hformat s).2 ⟨s, rfl, h⟩), by simp⟩
  · rintro ⟨⟨s, rfl⟩, h, -⟩
    exact (hformat s).1 (format_str.1 h)

/-- The day must be one that the calendar has. -/
example : OperatingSchema.timestamp (.str "2024-02-29T12:00:00Z") = true ∧
    OperatingSchema.timestamp (.str "2023-02-29T12:00:00Z") = false := by decide +kernel

theorem timestamps_checks (hv : v.isJson = true) :
    Checks (timestamps v) (OperatingSchema.timestamps v = true) := by
  refine object_checks (by decide +kernel) fun m hm _ hnamed => ?_
  subst hm
  exact (eachItem_checks (C := fun _ v => OperatingSchema.timestamp v = true)
    fun e _ => timestamp_checks).congr
      (forall_props (Value.isJson_dict.1 hv).1 hnamed (by simp))

theorem scope_checks : Checks (scope v) (OperatingSchema.scope v = true) := by
  unfold scope
  split
  · exact (Decides.ok ()).congr (iff_of_true trivial (by decide +kernel))
  · rename_i hnull
    rw [OperatingSchema.scope, allOf_or_null hnull]
    exact text_checks.discard

theorem measure_checks {k : Scalar Text} (hv : v.isJson = true) : Checks (measure k v)
    (OperatingSchema.text (.scalar k) = true ∧ OperatingSchema.quantity v = true) :=
  text_checks.bind fun _ _ => quantity_checks hv

theorem usage_checks (hv : v.isJson = true) :
    Checks (usage v) (OperatingSchema.usage v = true) := by
  unfold usage
  split
  · exact (Decides.ok ()).congr (iff_of_true trivial (by decide +kernel))
  · rename_i e l
    obtain ⟨-, hkeys, hjson⟩ := Value.isJson_dict.1 hv
    refine (eachItem_checks (C := fun k v => OperatingSchema.text (.scalar k) = true ∧
      OperatingSchema.quantity v = true) fun e he => measure_checks (hjson e he)).congr ?_
    rw [OperatingSchema.usage_iff hkeys, and_iff_right (List.cons_ne_nil e l)]
  · rename_i h₁ h₂
    refine fail_checks.congr (iff_of_false not_false fun h => ?_)
    simp only [OperatingSchema.usage, allOf_iff, List.forall_mem_cons, type_or_null] at h
    obtain ⟨htype | hnull, hmin, -⟩ := h
    · obtain ⟨m, rfl⟩ := type_object_iff.1 (type_iff.2 htype)
      obtain ⟨e, l, rfl⟩ := List.length_pos_iff_exists_cons.1 (minProperties_dict.1 hmin)
      exact h₂ e l rfl
    · exact h₁ hnull

example : OperatingSchema.usage (.dict []) = false := by decide +kernel

theorem component_checks {i : ℕ} (hv : v.isJson = true) :
    Checks (component i v) (OperatingSchema.component v = true) := by
  refine object_checks (by decide +kernel) fun m hm hreq _ => ?_
  subst hm
  simp only [List.forall_mem_cons] at hreq
  obtain ⟨⟨kind, hkind⟩, ⟨quantity, hquantity⟩, ⟨unit, hunit⟩, ⟨price, hprice⟩, -⟩ := hreq
  have hjson := fun {k x} (h : m.get? k = some x) =>
    (Value.isJson_dict.1 hv).2.2 _ (Members.mem_of_get? h)
  refine (subscript_checks hkind (text_checks.discard.bind fun _ _ =>
    subscript_checks hunit (text_checks.discard.bind fun _ _ =>
      subscript_checks hquantity ((quantity_checks (hjson hquantity)).bind fun _ _ =>
        subscript_checks hprice (price_checks (hjson hprice)))))).congr ?_
  simp only [List.forall_mem_cons, forall_found hkind, forall_found hquantity, forall_found hunit,
    forall_found hprice]
  tauto

theorem components_checks {o : Option (Value Text)} (ho : ∀ v, o = some v → v.isJson = true) :
    Checks (components o) (∀ v, o = some v → OperatingSchema.components v = true) := by
  unfold components
  split
  · exact (Decides.ok ()).congr (by simp)
  · rename_i l
    have hl := Value.isJson_list.1 (ho _ rfl)
    refine (Decides.checkEach (C := fun v => OperatingSchema.component v = true)
      fun i v hv => component_checks (hl v hv)).discard.congr ?_
    simp [OperatingSchema.components, type_array_iff]
  · rename_i v hv
    refine fail_checks.congr (iff_of_false not_false fun h => ?_)
    obtain ⟨l, rfl⟩ := type_array_iff.1 (allOf_iff.1 (h v rfl) _ (.head _))
    exact hv l rfl

/-- The texts of a list that are all nonempty texts. -/
theorem texts_ok {l : List (Value Text)} {strings : List Text}
    (h : checkEach (fun _ v => text v path) 0 l = .ok strings) : l = strings.map .str := by
  have hstrings := (checkEach_ok (R := fun v s => v = .str s ∧ s ≠ []) fun _ _ _ => text_ok).1 h
  clear h
  induction hstrings with
  | nil => rfl
  | cons hv _ ih => rw [List.map_cons, ← ih, hv.1]

theorem sourceReferences_checks :
    Checks (sourceReferences v) (OperatingSchema.sourceReferences v = true) := by
  unfold sourceReferences
  split
  · rename_i v l
    have hdistinct : ∀ strings,
        checkEach (fun _ v => text v "/source_references") 0 (v :: l) = .ok strings →
          Checks (failIf (strings.dedup.length ≠ strings.length)
            "/source_references" "duplicate source references") (distinct (v :: l) = true) := by
      intro strings hstrings
      rw [texts_ok hstrings, distinct_texts]
      refine failIf_checks.congr ?_
      rw [decide_eq_false_iff_not, not_not]
      refine ⟨fun h => ?_, fun h => by rw [List.dedup_eq_self.2 h]⟩
      exact List.dedup_eq_self.1 ((List.dedup_sublist strings).eq_of_length h)
    refine ((Decides.checkEach (C := fun v => OperatingSchema.text v = true)
      fun _ _ _ => text_checks).bind hdistinct).congr ?_
    rw [OperatingSchema.sourceReferences_iff, and_iff_right (List.cons_ne_nil v l), and_comm]
  · rename_i h
    refine fail_checks.congr (iff_of_false not_false fun hv => ?_)
    rw [OperatingSchema.sourceReferences, allOf_iff] at hv
    obtain ⟨l, rfl⟩ := type_array_iff.1 (hv _ (.head _))
    obtain ⟨w, l, rfl⟩ :=
      List.length_pos_iff_exists_cons.1 (minItems_list.1 (hv _ (.tail _ (.head _))))
    exact h w l rfl

/-- A finite float is converted exactly when it is an integer. -/
theorem intOf_ok {q : ℚ} {n : ℤ} : intOf (.finite q) = .ok (some n) ↔ q = n := by
  unfold intOf
  dsimp only
  split_ifs with h
  · rw [Except.ok.injEq, Option.some.injEq]
    exact ⟨fun hn => by rw [← hn, h], fun hn => by subst hn; simp⟩
  · refine iff_of_false (by simp) ?_
    rintro rfl
    simp at h

/-- The integer of a number that is one, from 1 on. -/
theorem declarationVersion_ok {n : ℤ} : declarationVersion v = .ok n ↔
    ∃ s, v = .scalar s ∧ s.number? = some (n : ℚ) ∧ 1 ≤ n := by
  constructor
  · intro h
    obtain ⟨_, hquantity, h⟩ := except_bind_ok.1 h
    split at h
    · split_ifs at h with hi
      · cases h
      · cases h
        exact ⟨.int n, rfl, rfl, by omega⟩
    · rename_i f _
      split_ifs at h with hf
      · cases h
      · obtain ⟨o, ho, h⟩ := except_bind_ok.1 h
        cases o <;> cases h
        cases f with
        | finite q =>
          have hq := intOf_ok.1 ho
          refine ⟨.float (.finite q), rfl, by rw [Scalar.number?, hq], ?_⟩
          rw [lessThanOne, hq, decide_eq_true_eq, Rat.not_lt] at hf
          exact_mod_cast hf
        | inf _ => cases ho
        | nan => cases ho
    · cases h
  · rintro ⟨s, rfl, hs, hn⟩
    have hpos : ¬ (n : ℚ) < 0 := by
      rw [Rat.not_lt]
      exact_mod_cast (by omega : 0 ≤ n)
    have hquantity : quantity (.scalar s) "/declaration_version" = .ok () := by
      unfold quantity
      split
      · rfl
      · rename_i s' _ heq
        cases heq
        rw [hs]
        exact if_neg hpos
      · rename_i h
        exact absurd rfl (h s)
    unfold declarationVersion
    rw [hquantity]
    cases s with
    | int i =>
      have hi : i = n := by simpa [Scalar.number?] using hs
      subst hi
      exact if_neg (by omega)
    | float f =>
      cases f with
      | finite q =>
        have hq : q = n := by simpa [Scalar.number?] using hs
        have hone : lessThanOne (.finite q) = false := by
          rw [lessThanOne, hq, decide_eq_false_iff_not, Rat.not_lt]
          exact_mod_cast hn
        show (if _ then _ else _) = _
        rw [if_neg (by rw [hone]; exact Bool.false_ne_true), intOf_ok.2 hq]
        rfl
      | _ => cases hs
    | _ => cases hs

theorem declarationVersion_checks (hv : v.isJson = true) :
    Checks (declarationVersion v) (OperatingSchema.declarationVersion v = true) := by
  constructor
  · simp only [declarationVersion_ok, OperatingSchema.declarationVersion_iff]
    exact exists_comm
  · refine failsOnly_bind.2 ⟨(quantity_checks hv).fails, fun _ _ => ?_⟩
    split
    · split_ifs
      · exact fail_checks.fails
      · exact failsOnly_ok _
    · rename_i f _
      split_ifs
      · exact fail_checks.fails
      · cases f with
        | finite q =>
          refine failsOnly_bind.2 ⟨failsOnly_ok _, fun o _ => ?_⟩
          cases o with
          | none => exact fail_checks.fails
          | some n => exact failsOnly_ok _
        | inf _ => rw [Value.isJson_scalar] at hv; cases hv
        | nan => rw [Value.isJson_scalar] at hv; cases hv
    · exact fail_checks.fails

theorem task_checks : Checks (task v) (OperatingSchema.task v = true) := by
  have htask : ∀ s, text v "/task" = .ok s → Checks
      (failIf (!fullmatch taskPattern s) "/task" "invalid task identifier")
      (pattern (fullmatch taskPattern) v = true) := fun s hs => by
    rw [(text_ok.1 hs).1, pattern_str]
    exact failIf_checks.congr (by rw [Bool.not_eq_false'])
  refine (text_checks.bind htask).congr ?_
  simp only [OperatingSchema.task, OperatingSchema.text, allOf_iff, List.forall_mem_cons]
  tauto

/-! ## The record -/

theorem recordSchema_iff : decide (v.text? ≠ some currentOperatingSchema) = false ↔
    const (Text.lit "paa-operating-record/0.1.0-draft") v = true := by
  rw [decide_eq_false_iff_not, not_not, Value.text?_eq_some, const_iff]
  rfl

/-- The decoder decides the published schema. -/
theorem decodeDocument_checks (hv : v.isJson = true) :
    Checks (decodeDocument v) (operatingSchema v = true) := by
  refine object_checks (by decide +kernel) fun m hm hreq _ => ?_
  subst hm
  simp only [List.forall_mem_cons] at hreq
  obtain ⟨⟨recordSchema, h₁⟩, ⟨recordId, h₂⟩, ⟨task, h₃⟩, ⟨version, h₄⟩, ⟨scope, h₅⟩, ⟨subject, h₆⟩,
    ⟨worker, h₇⟩, ⟨usage, h₈⟩, ⟨price, h₉⟩, ⟨timestamps, h₁₀⟩, ⟨references, h₁₁⟩, -⟩ := hreq
  have hjson := fun {k x} (h : m.get? k = some x) =>
    (Value.isJson_dict.1 hv).2.2 _ (Members.mem_of_get? h)
  -- the other members are found in the record that the version is replaced in
  have hset := fun {k} (n : ℤ) (h : k ≠ Text.lit "declaration_version") =>
    Members.get?_set_of_ne (m := m) (.int n) h
  have hrest : ∀ n : ℤ, Checks (checkRest (m.set "declaration_version" (.int n)))
      (OperatingSchema.scope scope = true ∧ OperatingSchema.subject subject = true ∧
        OperatingSchema.worker worker = true ∧ OperatingSchema.usage usage = true ∧
        OperatingSchema.price price = true ∧
        (∀ v, m.get? "components" = some v → OperatingSchema.components v = true) ∧
        OperatingSchema.timestamps timestamps = true ∧
        OperatingSchema.sourceReferences references = true) := fun n => by
    unfold checkRest
    rw [hset n (by decide +kernel)]
    exact subscript_checks ((hset n (by decide +kernel)).trans h₅) (scope_checks.bind fun _ _ =>
      subscript_checks ((hset n (by decide +kernel)).trans h₆) (subject_checks.bind fun _ _ =>
      subscript_checks ((hset n (by decide +kernel)).trans h₇)
        ((worker_checks (hjson h₇)).bind fun _ _ =>
      subscript_checks ((hset n (by decide +kernel)).trans h₈)
        ((usage_checks (hjson h₈)).bind fun _ _ =>
      subscript_checks ((hset n (by decide +kernel)).trans h₉)
        ((price_checks (hjson h₉)).bind fun _ _ =>
      (components_checks fun v hv => hjson hv).bind fun _ _ =>
      subscript_checks ((hset n (by decide +kernel)).trans h₁₀)
        ((timestamps_checks (hjson h₁₀)).bind fun _ _ =>
      subscript_checks ((hset n (by decide +kernel)).trans h₁₁) sourceReferences_checks))))))
  refine (subscript_checks h₁ (failIf_checks.bind fun _ _ =>
    subscript_checks h₂ (text_checks.discard.bind fun _ _ =>
    subscript_checks h₃ (task_checks.bind fun _ _ =>
    subscript_checks h₄ ((declarationVersion_checks (hjson h₄)).bind fun n _ =>
    (hrest n).bind fun _ _ => Decides.ok _))))).congr ?_
  simp only [List.forall_mem_cons, forall_found h₁, forall_found h₂, forall_found h₃,
    forall_found h₄, forall_found h₅, forall_found h₆, forall_found h₇, forall_found h₈,
    forall_found h₉, forall_found h₁₀, forall_found h₁₁, recordSchema_iff]
  tauto

end Operating

end PaaRuntime
