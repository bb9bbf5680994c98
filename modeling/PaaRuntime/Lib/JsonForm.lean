import PaaRuntime.Lib.Text
import PaaRuntime.Lib.Value

/-!
# What a value is after a round through JSON

`json.loads(json.dumps(value))`: every key is a text, a later member of a key takes the place of an
earlier one, and the escapes of a high and a low surrogate that stand side by side are read as the
one code point they encode. A JSON document comes back as it is exactly when no text in it has such a
pair (`jsonForm_eq_self`).
-/

namespace PaaRuntime

/-! ## Surrogate pairs -/

namespace Text

def isHigh (c : CodePoint) : Bool := 0xD800 ≤ c.val && c.val ≤ 0xDBFF

def isLow (c : CodePoint) : Bool := 0xDC00 ≤ c.val && c.val ≤ 0xDFFF

/-- The code point that a surrogate pair encodes. -/
def joinPair (high low : CodePoint) : CodePoint :=
  Fin.ofNat _ (0x10000 + (high.val - 0xD800) * 0x400 + (low.val - 0xDC00))

/-- Every high surrogate joined with a low one after it. -/
def joined : Text → Text
  | c :: d :: s => if isHigh c && isLow d then joinPair c d :: joined s else c :: joined (d :: s)
  | s => s

variable {s t : Text} {c d : CodePoint}

theorem joined_cons_cons : joined (c :: d :: s) =
    if isHigh c && isLow d then joinPair c d :: joined s else c :: joined (d :: s) := by
  rw [joined]

theorem val_joinPair (h : isHigh c = true) (h' : isLow d = true) :
    0x10000 ≤ (joinPair c d).val := by
  simp only [isHigh, isLow, Bool.and_eq_true, decide_eq_true_eq] at h h'
  rw [joinPair, Fin.val_ofNat, Nat.mod_eq_of_lt (by omega)]
  omega

theorem not_isHigh (h : c.val < 0xD800 ∨ 0xDFFF < c.val) : isHigh c = false := by
  simp only [isHigh, Bool.and_eq_false_iff, decide_eq_false_iff_not]
  omega

/-- A text without surrogates has no pair. -/
theorem joined_of_encodable (h : s.Encodable) : s.joined = s := by
  fun_induction joined s with
  | case1 c d s hpair ih =>
    rw [not_isHigh (h c List.mem_cons_self)] at hpair
    exact absurd hpair Bool.false_ne_true
  | case2 c d s hpair ih => rw [ih fun x hx => h x (List.mem_cons_of_mem c hx)]
  | case3 s h' => rfl

/-- A pair makes a code point above the others. -/
theorem eq_of_joined (h : s.joined = t) (ht : ∀ c ∈ t, c.val < 0x10000) : s = t := by
  fun_induction joined s generalizing t with
  | case1 c d s hpair ih =>
    subst h
    have hlow := ht _ List.mem_cons_self
    rw [Bool.and_eq_true] at hpair
    have hhigh := val_joinPair hpair.1 hpair.2
    omega
  | case2 c d s hpair ih =>
    subst h
    rw [← ih rfl fun x hx => ht x (List.mem_cons_of_mem c hx)]
  | case3 s h' => exact h

end Text

/-! ## Keys -/

/-- `float.__repr__`, of which a finite float's begins with a digit or a minus sign. -/
class FloatText where
  repr : PyFloat → Text
  repr_head : ∀ q, ∃ c s, repr (.finite q) = c :: s ∧
    (c.val = '-'.toNat ∨ '0'.toNat ≤ c.val ∧ c.val ≤ '9'.toNat)

variable [FloatText]

/-- The text that `json.dumps` writes for a key, as it is read back. -/
def jsonKey : Scalar Text → Text
  | .str s => s.joined
  | .bool b => if b then "true" else "false"
  | .int (.ofNat n) => Text.decimal n
  | .int (.negSucc n) => "-" ++ Text.decimal (n + 1)
  | .float f => FloatText.repr f
  | _ => "null"

/-- A text that is written for no key but itself. -/
structure IsName (name : Text) : Prop where
  reserved : name ∉ (["true", "false", "null"] : List Text)
  low : ∀ c ∈ name, c.val < 0xD800
  head : ∀ c ∈ name.head?, c.val ≠ '-'.toNat ∧ (c.val < '0'.toNat ∨ '9'.toNat < c.val)
  nonempty : name ≠ []

omit [FloatText] in
theorem decimal_head (n : ℕ) : ∃ c s, Text.decimal n = c :: s ∧
    '0'.toNat ≤ c.val ∧ c.val ≤ '9'.toNat := by
  have hdigits : Text.decimal n = (Nat.toDigits 10 n).map fun c => Fin.ofNat _ c.toNat := by
    rw [Text.decimal, Text.lit, Nat.toList_repr]
  rcases hd : Nat.toDigits 10 n with _ | ⟨d, l⟩
  · exact absurd hd Nat.toDigits_ne_nil
  · have hdigit := Nat.isDigit_of_mem_toDigits (b := 10) (n := n) (by decide) (by decide)
      (hd ▸ List.mem_cons_self : d ∈ Nat.toDigits 10 n)
    simp only [Char.isDigit, Bool.and_eq_true, decide_eq_true_eq] at hdigit
    have hlow : 48 ≤ d.toNat := hdigit.1
    have hhigh : d.toNat ≤ 57 := hdigit.2
    refine ⟨Fin.ofNat _ d.toNat, l.map fun c => Fin.ofNat _ c.toNat, by rw [hdigits, hd]; rfl, ?_⟩
    rw [Fin.val_ofNat, Nat.mod_eq_of_lt (by omega)]
    exact ⟨hlow, hhigh⟩

omit [FloatText] in
/-- A number's text is no name. -/
theorem ne_name_of_head {name s : Text} {c : CodePoint} (h : IsName name)
    (hc : c.val = '-'.toNat ∨ '0'.toNat ≤ c.val ∧ c.val ≤ '9'.toNat) : c :: s ≠ name := by
  rintro rfl
  have hhead := h.head c rfl
  omega

theorem jsonKey_eq_name {name : Text} (h : IsName name) {k : Scalar Text} (hk : k.isJson = true) :
    jsonKey k = name ↔ k = .str name := by
  constructor
  · intro hname
    cases k with
    | str s => rw [Text.eq_of_joined hname fun c hc => (h.low c hc).trans (by decide)]
    | null => exact absurd (by simp [← hname, jsonKey]) h.reserved
    | bool b => cases b <;> exact absurd (by simp [← hname, jsonKey]) h.reserved
    | int i =>
      cases i with
      | ofNat n =>
        obtain ⟨c, s, hs, hc⟩ := decimal_head n
        rw [jsonKey, hs] at hname
        exact absurd hname (ne_name_of_head h (.inr hc))
      | negSucc n => exact absurd hname (ne_name_of_head h (.inl rfl))
    | float f =>
      cases f with
      | finite q =>
        obtain ⟨c, s, hs, hc⟩ := FloatText.repr_head q
        rw [jsonKey, hs] at hname
        exact absurd hname (ne_name_of_head h hc)
      | inf _ => cases hk
      | nan => cases hk
    | _ => cases hk
  · rintro rfl
    exact Text.joined_of_encodable fun c hc => .inl (h.low c hc)

/-! ## Values -/

/-- A member takes the place of an earlier one under its key, or comes last. -/
def Members.put (m : Members Text) (e : Scalar Text × Value Text) : Members Text :=
  if m.any (·.1 = e.1) then m.map fun f => if f.1 = e.1 then e else f else m ++ [e]

/-- The mapping of the pairs that a JSON object lists. -/
def objectOf (pairs : Members Text) : Members Text := pairs.foldl Members.put []

section

omit [FloatText]

variable {m l : Members Text} {e f : Scalar Text × Value Text}

theorem mem_put (h : f ∈ m.put e) : f ∈ m ∨ f = e := by
  unfold Members.put at h
  split_ifs at h
  · obtain ⟨g, hg, rfl⟩ := List.mem_map.1 h
    split_ifs
    · exact .inr rfl
    · exact .inl hg
  · rw [List.mem_append, List.mem_singleton] at h
    exact h

theorem put_of_new (h : ∀ f ∈ m, f.1 ≠ e.1) : m.put e = m ++ [e] := by
  refine if_neg fun hany => ?_
  obtain ⟨f, hf, hkey⟩ := List.any_eq_true.1 hany
  exact h f hf (of_decide_eq_true hkey)

theorem keys_put : (m.put e).map (·.1) = if e.1 ∈ m.map (·.1) then m.map (·.1)
    else m.map (·.1) ++ [e.1] := by
  by_cases h : e.1 ∈ m.map (·.1)
  · obtain ⟨f, hf, hkey⟩ := List.mem_map.1 h
    rw [if_pos h, Members.put, if_pos (List.any_eq_true.2 ⟨f, hf, decide_eq_true hkey⟩),
      List.map_map]
    refine List.map_congr_left fun g _ => ?_
    show (if g.1 = e.1 then e else g).1 = g.1
    split_ifs with hg
    · exact hg.symm
    · rfl
  · rw [if_neg h, put_of_new fun f hf hkey => h (hkey ▸ List.mem_map_of_mem hf), List.map_append,
      List.map_singleton]

theorem objectOf_concat : objectOf (l ++ [e]) = (objectOf l).put e := by
  rw [objectOf, List.foldl_append]
  rfl

theorem mem_of_mem_objectOf (h : e ∈ objectOf l) : e ∈ l := by
  induction l using List.reverseRecOn with
  | nil => exact h
  | append_singleton l f ih =>
    rw [objectOf_concat] at h
    rw [List.mem_append, List.mem_singleton]
    exact (mem_put h).imp_left ih

theorem mem_keys_objectOf {k : Scalar Text} :
    k ∈ (objectOf l).map (·.1) ↔ k ∈ l.map (·.1) := by
  induction l using List.reverseRecOn with
  | nil => rfl
  | append_singleton l f ih =>
    rw [objectOf_concat, keys_put, List.map_append, List.mem_append, List.map_singleton,
      List.mem_singleton, ← ih]
    split_ifs with h
    · exact ⟨.inl, fun hk => hk.elim id fun hk => hk ▸ h⟩
    · rw [List.mem_append, List.mem_singleton]

theorem nodup_keys_objectOf : ((objectOf l).map (·.1)).Nodup := by
  induction l using List.reverseRecOn with
  | nil => exact List.nodup_nil
  | append_singleton l f ih =>
    rw [objectOf_concat, keys_put]
    split_ifs with h
    · exact ih
    · exact List.nodup_append.2 ⟨ih, List.nodup_singleton _, fun a ha b hb hab =>
        h (List.mem_singleton.1 hb ▸ hab ▸ ha)⟩

/-- Pairs with distinct keys are a mapping already. -/
theorem objectOf_of_nodup (h : (l.map (·.1)).Nodup) : objectOf l = l := by
  induction l using List.reverseRecOn with
  | nil => rfl
  | append_singleton l f ih =>
    rw [List.map_append, List.nodup_append] at h
    rw [objectOf_concat, ih h.1, put_of_new fun g hg hkey => ?_]
    exact h.2.2 g.1 (List.mem_map_of_mem hg) f.1 (List.mem_singleton_self _) hkey

theorem length_objectOf_le : (objectOf l).length ≤ l.length := by
  have hsub : (objectOf l).map (·.1) ⊆ l.map (·.1) := fun k hk => mem_keys_objectOf.1 hk
  have hle := (List.subperm_of_subset nodup_keys_objectOf hsub).length_le
  rwa [List.length_map, List.length_map] at hle

/-- Where nothing is merged, the mapping is the pairs. -/
theorem objectOf_of_length (h : (objectOf l).length = l.length) : objectOf l = l := by
  have hsub : (objectOf l).map (·.1) ⊆ l.map (·.1) := fun k hk => mem_keys_objectOf.1 hk
  have hperm := (List.subperm_of_subset nodup_keys_objectOf hsub).perm_of_length_le
    (by rw [List.length_map, List.length_map, h])
  exact objectOf_of_nodup (hperm.nodup_iff.1 nodup_keys_objectOf)

/-- A key under which the pairs agree. -/
theorem get?_objectOf {key : Text} {o : Option (Value Text)}
    (h : ∀ e ∈ l, e.1 = .str key → some e.2 = o) (ho : ∀ x ∈ o, ∃ e ∈ l, e.1 = .str key) :
    (objectOf l).get? key = o := by
  cases hget : (objectOf l).get? key with
  | some x => exact h _ (mem_of_mem_objectOf (Members.mem_of_get? hget)) rfl
  | none =>
    cases o with
    | none => rfl
    | some x =>
      obtain ⟨e, he, hkey⟩ := ho x rfl
      obtain ⟨f, hf, hfkey⟩ := List.mem_map.1 (mem_keys_objectOf.2 (List.mem_map_of_mem he))
      exact absurd (hfkey.trans hkey) (Members.get?_eq_none.1 hget f hf)

end

/-- A scalar that is not a key. -/
def Scalar.jsonForm : Scalar Text → Scalar Text
  | .str s => .str s.joined
  | s => s

namespace Value

mutual

/-- `json.loads(json.dumps(value))`. -/
def jsonForm : Value Text → Value Text
  | scalar s => scalar s.jsonForm
  | list items => list (jsonFormItems items)
  | dict members => dict (objectOf (jsonFormMembers members))

def jsonFormItems : List (Value Text) → List (Value Text)
  | [] => []
  | v :: l => jsonForm v :: jsonFormItems l

def jsonFormMember : Scalar Text × Value Text → Scalar Text × Value Text
  | (k, v) => (.str (jsonKey k), jsonForm v)

def jsonFormMembers : Members Text → Members Text
  | [] => []
  | m :: l => jsonFormMember m :: jsonFormMembers l

end

/-- A value that is built from `dict`, `list`, `str`, `int`, `float`, `bool` and `None`, with distinct
keys in every mapping. -/
inductive Built : Value Text → Prop
  | scalar (s : Scalar Text) : Built (.scalar s)
  | list (l : List (Value Text)) : (∀ v ∈ l, Built v) → Built (.list l)
  | dict (m : Members Text) : (m.map (·.1)).Nodup → (∀ e ∈ m, Built e.2) → Built (.dict m)

/-- No text of the value has a surrogate pair. -/
def Stable (v : Value Text) : Prop := ∀ s : Text, .str s ∈ v.scalars → s.joined = s

variable {v : Value Text} {m : Members Text} {l : List (Value Text)}

@[simp] theorem jsonForm_scalar (s : Scalar Text) : (scalar s).jsonForm = scalar s.jsonForm := by
  rw [jsonForm]

@[simp] theorem jsonForm_list : (list l).jsonForm = list (l.map jsonForm) := by
  rw [jsonForm]
  congr 1
  induction l with
  | nil => rfl
  | cons v l ih => rw [jsonFormItems, ih, List.map_cons]

@[simp] theorem jsonForm_dict : (dict m).jsonForm =
    dict (objectOf (m.map fun e => (.str (jsonKey e.1), e.2.jsonForm))) := by
  rw [jsonForm]
  congr 2
  induction m with
  | nil => rfl
  | cons e m ih =>
    obtain ⟨k, v⟩ := e
    rw [jsonFormMembers, jsonFormMember, ih, List.map_cons]

omit [FloatText] in
theorem mem_scalars_list {s : Scalar Text} : s ∈ (list l).scalars ↔ ∃ v ∈ l, s ∈ v.scalars := by
  rw [scalars]
  induction l with
  | nil => simp [scalarsOfItems]
  | cons v l ih => simp [scalarsOfItems, ih]

omit [FloatText] in
theorem mem_scalars_dict {s : Scalar Text} :
    s ∈ (dict m).scalars ↔ ∃ e ∈ m, s = e.1 ∨ s ∈ e.2.scalars := by
  rw [scalars]
  induction m with
  | nil => simp [scalarsOfMembers]
  | cons e m ih =>
    obtain ⟨k, v⟩ := e
    simp [scalarsOfMembers, scalarsOfMember, ih, or_assoc]

/-- A value of JSON scalars comes back as a JSON document. -/
theorem Built.isJson_jsonForm (h : v.Built) (hs : ∀ s ∈ v.scalars, s.isJson = true) :
    v.jsonForm.isJson = true := by
  induction h with
  | scalar s =>
    have hjson : s.isJson = true := hs s (by simp [scalars])
    rw [jsonForm_scalar, isJson_scalar]
    cases s <;> first | rfl | exact hjson
  | list l hl ih =>
    rw [jsonForm_list, isJson_list]
    intro w hw
    obtain ⟨v, hv, rfl⟩ := List.mem_map.1 hw
    exact ih v hv fun s hsv => hs s (mem_scalars_list.2 ⟨v, hv, hsv⟩)
  | dict m hm he ih =>
    rw [jsonForm_dict, isJson_dict]
    refine ⟨nodup_keys_objectOf, fun e hobject => ?_, fun e hobject => ?_⟩
    · obtain ⟨f, hf, rfl⟩ := List.mem_map.1 (mem_of_mem_objectOf hobject)
      exact ⟨_, rfl⟩
    · obtain ⟨f, hf, rfl⟩ := List.mem_map.1 (mem_of_mem_objectOf hobject)
      exact ih f hf fun s hsf => hs s (scalars_of_mem hf hsf)

omit [FloatText] in
theorem Built.member {w : Value Text} {key : Text} (h : v.Built) (hw : v.member key = some w) :
    w.Built := by
  obtain ⟨m, rfl⟩ := dict_of_member hw
  cases h with
  | dict m hm hbuilt => exact hbuilt _ (Members.mem_of_get? hw)

/-- The member of a name comes back under it. -/
theorem Built.member_jsonForm (h : v.Built) (hs : ∀ s ∈ v.scalars, s.isJson = true) {name : Text}
    (hname : IsName name) : v.jsonForm.member name = (v.member name).map jsonForm := by
  cases h with
  | scalar s => simp
  | list l hl => simp
  | dict m hm he =>
    rw [jsonForm_dict, member_dict, member_dict]
    have hkey : ∀ e ∈ m, jsonKey e.1 = name ↔ e.1 = .str name := fun e hem =>
      jsonKey_eq_name hname (hs _ (mem_scalars_dict.2 ⟨e, hem, .inl rfl⟩))
    refine get?_objectOf (fun f hf hfk => ?_) fun x hx => ?_
    · obtain ⟨e, hem, rfl⟩ := List.mem_map.1 hf
      have hename := (hkey e hem).1 (Scalar.str.inj hfk)
      obtain ⟨k, v⟩ := e
      obtain rfl : k = .str name := hename
      rw [Members.get?_of_mem hm hem]
      rfl
    · obtain ⟨w, hw, rfl⟩ := Option.map_eq_some_iff.1 hx
      have hmem := Members.mem_of_get? hw
      refine ⟨_, List.mem_map_of_mem hmem, ?_⟩
      rw [(hkey _ hmem).2 rfl]

omit [FloatText] in
theorem built_of_isJson (v : Value Text) (h : v.isJson = true) : v.Built := by
  match v, h with
  | scalar s, _ => exact .scalar s
  | list l, h => exact .list l fun w hw => built_of_isJson w (isJson_list.1 h w hw)
  | dict m, h =>
    obtain ⟨hm, -, hjson⟩ := isJson_dict.1 h
    exact .dict m hm fun e he => built_of_isJson e.2 (hjson e he)
termination_by sizeOf v
decreasing_by
  · have hlt := List.sizeOf_lt_of_mem hw
    simp only [list.sizeOf_spec]
    omega
  · have hlt := List.sizeOf_lt_of_mem he
    obtain ⟨k, w⟩ := e
    simp only [dict.sizeOf_spec, Prod.mk.sizeOf_spec] at hlt ⊢
    omega

omit [FloatText] in
theorem map_eq_self {α : Type} {f : α → α} {l : List α} : l.map f = l ↔ ∀ a ∈ l, f a = a := by
  induction l with
  | nil => simp
  | cons a l ih => simp [ih]

/-- **A JSON document comes back as it is** exactly when no text in it has a surrogate pair. -/
theorem jsonForm_eq_self (h : v.isJson = true) : v.jsonForm = v ↔ v.Stable := by
  have hbuilt := built_of_isJson v h
  induction hbuilt with
  | scalar s =>
    have hscalars : (scalar s).scalars = [s] := by rw [scalars]
    rw [jsonForm_scalar, Stable, hscalars]
    cases s <;> simp [Scalar.jsonForm, eq_comm]
  | list l hl ih =>
    rw [isJson_list] at h
    rw [jsonForm_list, list.injEq, map_eq_self]
    constructor
    · intro hself s hs
      obtain ⟨w, hw, hsw⟩ := mem_scalars_list.1 hs
      exact (ih w hw (h w hw)).1 (hself w hw) s hsw
    · intro hstable w hw
      exact (ih w hw (h w hw)).2 fun s hs => hstable s (mem_scalars_list.2 ⟨w, hw, hs⟩)
  | dict m hm he ih =>
    obtain ⟨-, htext, hjson⟩ := isJson_dict.1 h
    rw [jsonForm_dict, dict.injEq]
    constructor
    · intro hself
      -- nothing has been merged, so each member is its own form
      have hpairs := objectOf_of_length (by rw [hself, List.length_map])
      rw [hpairs, map_eq_self] at hself
      intro s hs
      obtain ⟨e, hem, hkey | hsw⟩ := mem_scalars_dict.1 hs
      · have hform := congrArg Prod.fst (hself e hem)
        rw [← hkey] at hform
        exact Scalar.str.inj hform
      · exact (ih e hem (hjson e hem)).1 (congrArg Prod.snd (hself e hem)) s hsw
    · intro hstable
      have hpairs : m.map (fun e => (.str (jsonKey e.1), e.2.jsonForm)) = m := by
        refine map_eq_self.2 fun e hem => ?_
        obtain ⟨k, hk⟩ := htext e hem
        have hkey := hstable k (mem_scalars_dict.2 ⟨e, hem, .inl hk.symm⟩)
        have hvalue := (ih e hem (hjson e hem)).2 fun s hs =>
          hstable s (mem_scalars_dict.2 ⟨e, hem, .inr hs⟩)
        ext1
        · show Scalar.str (jsonKey e.1) = e.1
          rw [hk, jsonKey, hkey]
        · exact hvalue
      rw [hpairs, objectOf_of_nodup hm]

end Value

end PaaRuntime
