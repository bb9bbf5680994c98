import PaaRuntime.Lib.Value

/-!
# JSON Schema, draft-07

A schema is the check that it stands for: one function for each keyword, combined by `allOf`. As the
draft has it, a keyword about one type of value accepts every value of another type, an integer is
any number without a fractional part, and values are compared by what they denote. The length of a
text, patterns and formats are parameters.
-/

namespace PaaRuntime

variable {τ : Type}

/-- The values that a schema accepts. -/
abbrev Schema (τ : Type) := Value τ → Bool

/-- The types of the `type` keyword. -/
inductive JsonType
  | object | array | string | number | integer | boolean | null
  deriving DecidableEq, Repr

/-! ## Equality of values -/

section

variable [DecidableEq τ]

/-- Two scalars denote the same value: numbers are compared by value. -/
def Scalar.same (a b : Scalar τ) : Bool :=
  decide (a = b) || (a.number?.isSome && decide (a.number? = b.number?))

namespace Value

mutual

/-- Two values denote the same one: the order of members does not count. -/
def same : Value τ → Value τ → Bool
  | scalar a, scalar b => a.same b
  | list l, list m => sameItems l m
  | dict l, dict m => l.length == m.length && sameMembers l m
  | _, _ => false

def sameItems : List (Value τ) → List (Value τ) → Bool
  | [], [] => true
  | v :: l, w :: m => same v w && sameItems l m
  | _, _ => false

def sameMember : Scalar τ × Value τ → Members τ → Bool
  | (k, v), m => (m.find? (·.1 = k)).any fun e => same v e.2

def sameMembers : Members τ → Members τ → Bool
  | [], _ => true
  | e :: l, m => sameMember e m && sameMembers l m

end

end Value

end

/-- The value is of the type. -/
def JsonType.holds : JsonType → Value τ → Bool
  | .object, .dict _ => true
  | .array, .list _ => true
  | .string, .scalar (.str _) => true
  | .number, .scalar (.int _) => true
  | .number, .scalar (.float _) => true
  | .integer, .scalar (.int _) => true
  | .integer, .scalar (.float (.finite q)) => q.den == 1
  | .boolean, .scalar (.bool _) => true
  | .null, .scalar .null => true
  | _, _ => false

example : JsonType.integer.holds (.scalar (.float (.finite 2)) : Value String) = true := by
  rw [JsonType.holds]
  rfl

/-! ## Keywords -/

namespace Schema

def allOf (l : List (Schema τ)) : Schema τ := fun v => l.all (· v)

def oneOf (l : List (Schema τ)) : Schema τ := fun v => (l.filter (· v)).length == 1

def type (types : List JsonType) : Schema τ := fun v => types.any (·.holds v)

def minLength (length : τ → ℕ) (n : ℕ) : Schema τ := fun v => v.text?.all (n ≤ length ·)

def pattern (p : τ → Bool) : Schema τ := fun v => v.text?.all p

def format (p : τ → Bool) : Schema τ := fun v => v.text?.all p

/-- The `minimum` keyword; an infinite or undefined float has no bound to meet. -/
def minimum (n : ℤ) : Schema τ
  | .scalar s => s.number?.all ((n : ℚ) ≤ ·)
  | _ => true

def minItems (n : ℕ) : Schema τ := fun v => v.items?.all (n ≤ ·.length)

def items (s : Schema τ) : Schema τ := fun v => v.items?.all (·.all s)

def minProperties (n : ℕ) : Schema τ
  | .dict m => n ≤ m.length
  | _ => true

def propertyNames (s : Schema τ) : Schema τ
  | .dict m => m.all fun e => s (.scalar e.1)
  | _ => true

section

variable [DecidableEq τ]

/-- The `enum` keyword, over texts. -/
def enum (texts : List τ) : Schema τ := fun v => v.text?.any (· ∈ texts)

/-- The `const` keyword, over texts. -/
def const (text : τ) : Schema τ := enum [text]

/-- No two values of the list denote the same one. -/
def distinct : List (Value τ) → Bool
  | [] => true
  | v :: l => l.all (!v.same ·) && distinct l

def uniqueItems : Schema τ := fun v => v.items?.all distinct

def required (keys : List τ) : Schema τ
  | .dict m => keys.all fun k => (Members.get? m k).isSome
  | _ => true

def properties (props : List (τ × Schema τ)) : Schema τ
  | .dict m => props.all fun p => (Members.get? m p.1).all p.2
  | _ => true

/-- The `additionalProperties` keyword beside properties of the given names. -/
def additionalProperties (names : List τ) (s : Schema τ) : Schema τ
  | .dict m => m.all fun e => names.any (e.1 = .str ·) || s e.2
  | _ => true

/-- The keywords of an object with required, named and no other members. -/
def members (requires : List τ) (props : List (τ × Schema τ)) : Schema τ :=
  allOf [required requires, additionalProperties (props.map (·.1)) fun _ => false,
    properties props]

end

/-! ## What the keywords accept -/

section

variable {v : Value τ} {s : τ} {m : Members τ} {l : List (Value τ)}

@[simp] theorem allOf_iff {ss : List (Schema τ)} : allOf ss v = true ↔ ∀ s ∈ ss, s v = true := by
  simp [allOf]

theorem oneOf_some {ss : List (Schema τ)} (h : oneOf ss v = true) : ∃ s ∈ ss, s v = true := by
  have hlen : (ss.filter (· v)).length = 1 := beq_iff_eq.1 h
  have hpos : 0 < (ss.filter (· v)).length := by omega
  obtain ⟨s, hs⟩ := List.exists_mem_of_length_pos hpos
  exact ⟨s, List.mem_filter.1 hs⟩

theorem type_object_iff : type [.object] v = true ↔ ∃ m, v = .dict m := by
  cases v <;> simp [type, JsonType.holds]

theorem type_array_iff : type [.array] v = true ↔ ∃ l, v = .list l := by
  cases v <;> simp [type, JsonType.holds]

theorem type_string_iff : type [.string] v = true ↔ ∃ s, v = .scalar (.str s) := by
  rcases v with s | l | m
  · cases s <;> simp [type, JsonType.holds]
  · simp [type, JsonType.holds]
  · simp [type, JsonType.holds]

theorem type_iff {t : JsonType} : type [t] v = true ↔ t.holds v = true := by simp [type]

theorem type_or_null {t : JsonType} :
    type [t, .null] v = true ↔ t.holds v = true ∨ v = .scalar .null := by
  have h : JsonType.null.holds v = true ↔ v = .scalar .null := by
    rcases v with s | l | m
    · cases s <;> simp [JsonType.holds]
    · simp [JsonType.holds]
    · simp [JsonType.holds]
  simp [type, h]

/-- A schema that also allows null, on anything else. -/
theorem allOf_or_null {t : JsonType} {ss : List (Schema τ)} (h : v ≠ .scalar .null) :
    allOf (type [t, .null] :: ss) v = allOf (type [t] :: ss) v := by
  have ht : type [t, .null] v = type [t] v :=
    Bool.eq_iff_iff.2 (by rw [type_or_null, type_iff, or_iff_left h])
  simp [allOf, ht]

/-- A number of a JSON document. -/
theorem type_number_iff {s : Scalar τ} (hs : s.isJson = true) :
    JsonType.number.holds (.scalar s) = true ↔ ∃ q, s.number? = some q := by
  cases s <;> simp_all [JsonType.holds, Scalar.number?]
  rename_i f
  cases f <;> simp_all [Scalar.isJson]

/-- An integer is a number without a fractional part. -/
theorem type_integer_iff {s : Scalar τ} :
    JsonType.integer.holds (.scalar s) = true ↔ ∃ i : ℤ, s.number? = some (i : ℚ) := by
  cases s with
  | float f =>
    cases f with
    | finite q =>
      simp only [JsonType.holds, Scalar.number?, beq_iff_eq, Option.some.injEq]
      exact ⟨fun h => ⟨q.num, ((Rat.den_eq_one_iff q).1 h).symm⟩, by rintro ⟨i, rfl⟩; rfl⟩
    | _ => simp [JsonType.holds, Scalar.number?]
  | _ => simp [JsonType.holds, Scalar.number?]

@[simp] theorem minimum_scalar {s : Scalar τ} {n : ℤ} :
    minimum n (.scalar s) = true ↔ ∀ q, s.number? = some q → (n : ℚ) ≤ q := by
  simp [minimum, Option.all_eq_true]

@[simp] theorem minLength_str {length : τ → ℕ} {n : ℕ} :
    minLength length n (.scalar (.str s)) = true ↔ n ≤ length s := by
  simp [minLength, Value.text?]

@[simp] theorem pattern_str {p : τ → Bool} :
    pattern p (.scalar (.str s)) = true ↔ p s = true := by simp [pattern, Value.text?]

@[simp] theorem format_str {p : τ → Bool} :
    format p (.scalar (.str s)) = true ↔ p s = true := by simp [format, Value.text?]

@[simp] theorem minItems_list {n : ℕ} : minItems n (.list l) = true ↔ n ≤ l.length := by
  simp [minItems, Value.items?]

@[simp] theorem items_list {s : Schema τ} :
    items s (.list l) = true ↔ ∀ v ∈ l, s v = true := by simp [items, Value.items?]

@[simp] theorem minProperties_dict {n : ℕ} :
    minProperties n (.dict m) = true ↔ n ≤ m.length := by simp [minProperties]

@[simp] theorem propertyNames_dict {s : Schema τ} :
    propertyNames s (.dict m) = true ↔ ∀ e ∈ m, s (.scalar e.1) = true := by simp [propertyNames]

variable [DecidableEq τ]

@[simp] theorem enum_iff {texts : List τ} :
    enum texts v = true ↔ ∃ s ∈ texts, v = .scalar (.str s) := by
  simp only [enum, Option.any_eq_true, Value.text?_eq_some, decide_eq_true_eq]
  exact exists_congr fun _ => and_comm

@[simp] theorem const_iff : const s v = true ↔ v = .scalar (.str s) := by simp [const]

@[simp] theorem uniqueItems_list : uniqueItems (.list l) = true ↔ distinct l = true := by
  simp [uniqueItems, Value.items?]

@[simp] theorem required_dict {keys : List τ} :
    required keys (.dict m) = true ↔ ∀ k ∈ keys, ∃ v, m.get? k = some v := by
  simp [required, Option.isSome_iff_exists]

@[simp] theorem properties_dict {props : List (τ × Schema τ)} :
    properties props (.dict m) = true ↔ ∀ p ∈ props, ∀ v, m.get? p.1 = some v → p.2 v = true := by
  simp [properties, Option.all_eq_true]

@[simp] theorem additionalProperties_dict {names : List τ} {s : Schema τ} :
    additionalProperties names s (.dict m) = true ↔
      ∀ e ∈ m, (∃ k ∈ names, e.1 = .str k) ∨ s e.2 = true := by
  simp [additionalProperties]

/-- A record: the required members are there, each member is a named one, and those fit. -/
theorem members_dict {requires : List τ} {props : List (τ × Schema τ)} :
    members requires props (.dict m) = true ↔
      (∀ k ∈ requires, ∃ v, m.get? k = some v) ∧ (∀ e ∈ m, ∃ p ∈ props, e.1 = .str p.1) ∧
        ∀ p ∈ props, ∀ v, m.get? p.1 = some v → p.2 v = true := by
  simp [members]

/-- An object of exactly the named members, each with its own value. -/
theorem members_each {l : List (τ × Schema τ × Value τ)} (h : (l.map (·.1)).Nodup) :
    members (l.map (·.1)) (l.map fun x => (x.1, x.2.1)) (.dict (l.map fun x => (.str x.1, x.2.2))) =
      true ↔ ∀ x ∈ l, x.2.1 x.2.2 = true := by
  have hkeys : ((l.map fun x => ((.str x.1 : Scalar τ), x.2.2)).map (·.1)).Nodup := by
    have hmap : (l.map fun x => ((.str x.1 : Scalar τ), x.2.2)).map (·.1) =
        (l.map (·.1)).map .str := by
      rw [List.map_map, List.map_map]
      rfl
    rw [hmap]
    exact h.map fun _ _ hst => Scalar.str.inj hst
  have hget : ∀ x ∈ l, Members.get? (l.map fun x => (.str x.1, x.2.2)) x.1 = some x.2.2 :=
    fun x hx => Members.get?_of_mem hkeys (List.mem_map.2 ⟨x, hx, rfl⟩)
  rw [members_dict]
  constructor
  · rintro ⟨-, -, hprops⟩ x hx
    exact hprops (x.1, x.2.1) (List.mem_map.2 ⟨x, hx, rfl⟩) x.2.2 (hget x hx)
  · intro hvalues
    refine ⟨?_, ?_, ?_⟩
    · simp only [List.forall_mem_map]
      exact fun x hx => ⟨x.2.2, hget x hx⟩
    · simp only [List.forall_mem_map]
      exact fun x hx => ⟨(x.1, x.2.1), List.mem_map.2 ⟨x, hx, rfl⟩, rfl⟩
    · simp only [List.forall_mem_map]
      intro x hx v hv
      rw [hget x hx] at hv
      cases hv
      exact hvalues x hx

/-- An object of named members. -/
theorem object_iff {requires : List τ} {props : List (τ × Schema τ)} :
    allOf [type [.object], members requires props] v = true ↔
      ∃ m : Members τ, v = .dict m ∧ (∀ k ∈ requires, ∃ x, m.get? k = some x) ∧
        (∀ e ∈ m, ∃ p ∈ props, e.1 = .str p.1) ∧
        ∀ p ∈ props, ∀ x, m.get? p.1 = some x → p.2 x = true := by
  rw [allOf_iff, List.forall_mem_cons, List.forall_mem_singleton, type_object_iff]
  constructor
  · rintro ⟨⟨m, rfl⟩, h⟩
    exact ⟨m, rfl, members_dict.1 h⟩
  · rintro ⟨m, rfl, h⟩
    exact ⟨⟨m, rfl⟩, members_dict.2 h⟩

/-- What an object of named members holds. -/
theorem object_valid {requires : List τ} {props : List (τ × Schema τ)}
    (h : allOf [type [.object], members requires props] v = true) :
    ∃ m : Members τ, v = .dict m ∧ (∀ k ∈ requires, ∃ x, m.get? k = some x) ∧
      (∀ e ∈ m, ∃ p ∈ props, e.1 = .str p.1) ∧
      ∀ i x, (hi : i < props.length) → m.get? props[i].1 = some x → props[i].2 x = true := by
  obtain ⟨m, hv, hreq, hnamed, hprops⟩ := object_iff.1 h
  exact ⟨m, hv, hreq, hnamed, fun i x hi => hprops _ (List.getElem_mem hi) x⟩

theorem members_scalar {requires : List τ} {props : List (τ × Schema τ)} (s : Scalar τ) :
    members requires props (.scalar s) = true := by
  simp [members, required, properties, additionalProperties]

/-- Distinct texts are distinct values. -/
theorem distinct_texts {texts : List τ} :
    distinct (texts.map fun s => .scalar (.str s)) = true ↔ texts.Nodup := by
  induction texts with
  | nil => simp [distinct]
  | cons s l ih =>
    simp only [List.map_cons, distinct, Bool.and_eq_true, ih, List.nodup_cons, List.all_map,
      List.all_eq_true]
    refine and_congr_left fun _ => ⟨fun h hs => ?_, fun h t ht => ?_⟩
    · simpa [Value.same, Scalar.same] using h s hs
    · have hne : s ≠ t := fun he => h (he ▸ ht)
      simp [Value.same, Scalar.same, Scalar.number?, hne]

end

/-! ## Nesting -/

section

variable {n k : ℕ} {s : Schema τ} {ss : List (Schema τ)} [DecidableEq τ]

/-- The JSON documents that a schema accepts are nested at most so deep. -/
def DepthLe (n : ℕ) (s : Schema τ) : Prop := ∀ v : Value τ, v.isJson = true → s v = true → v.depth ≤ n

theorem DepthLe.mono (h : DepthLe n s) (hn : n ≤ k) : DepthLe k s :=
  fun v hv hs => (h v hv hs).trans hn

/-- A schema of scalars. -/
theorem depthLe_type {types : List JsonType} (hobject : .object ∉ types) (harray : .array ∉ types) :
    DepthLe 0 (allOf (type types :: ss) : Schema τ) := by
  intro v _ hv
  obtain ⟨t, ht, hholds⟩ := List.any_eq_true.1 (allOf_iff.1 hv _ (.head _))
  rcases v with a | l | m
  · simp
  · cases t <;> first | exact absurd ht harray | cases hholds
  · cases t <;> first | exact absurd ht hobject | cases hholds

theorem depthLe_const {text : τ} : DepthLe 0 (const text) := by
  intro v _ hv
  rw [const_iff.1 hv]
  simp

theorem depthLe_items (h : DepthLe n s) (hitems : items s ∈ ss) :
    DepthLe (n + 1) (allOf (type [.array] :: ss)) := by
  intro v hv hs
  rw [allOf_iff] at hs
  obtain ⟨l, rfl⟩ := type_array_iff.1 (hs _ (.head _))
  exact Value.depth_list_le fun v hl =>
    h v (Value.isJson_list.1 hv v hl) (items_list.1 (hs _ (.tail _ hitems)) v hl)

theorem depthLe_object {requires : List τ} {props : List (τ × Schema τ)}
    (h : ∀ p ∈ props, DepthLe n p.2) :
    DepthLe (n + 1) (allOf [type [.object], members requires props]) := by
  intro v hv hs
  obtain ⟨m, rfl, -, hnamed, hprops⟩ := object_iff.1 hs
  obtain ⟨hnodup, -, hjson⟩ := Value.isJson_dict.1 hv
  refine Value.depth_dict_le fun e he => ?_
  obtain ⟨p, hp, hkey⟩ := hnamed e he
  refine h p hp e.2 (hjson e he) (hprops p hp e.2 (Members.get?_of_mem hnodup ?_))
  rw [← hkey]
  exact he

theorem depthLe_or_null {t : JsonType} (h : DepthLe n (allOf (type [t] :: ss))) :
    DepthLe n (allOf (type [t, .null] :: ss)) := by
  intro v hv hs
  by_cases hnull : v = .scalar .null
  · rw [hnull]
    simp
  · exact h v hv (allOf_or_null hnull ▸ hs)

end

end Schema

end PaaRuntime
