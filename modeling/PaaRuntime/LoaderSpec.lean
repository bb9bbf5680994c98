import PaaRuntime.TaskDocument

/-!
# What the loader accepts

Each builder returns exactly what its value authors, and fails with `PaaDeclarationError` unless a
message must quote what `repr` cannot show, or keys must be sorted that have no order.
-/

namespace PaaRuntime

/-- The outcome is a result or the module's own exception. -/
abbrev FailsClosed {α : Type} (x : Load α) : Prop := FailsOnly BuildError.IsDeclarationError x

section

variable {α β : Type} {raw v : Value String} {m : Members String} {what path message key : String}

/-! ## Checks -/

theorem failsClosed_bind {x : Load α} {f : α → Load β} :
    FailsClosed (x >>= f) ↔ FailsClosed x ∧ ∀ a, x = .ok a → FailsClosed (f a) := failsOnly_bind

@[simp] theorem failsClosed_pure (a : α) : FailsClosed (pure a : Load α) := failsOnly_pure a

theorem refuse_ne_ok {parts : List Part} {a : α} : (refuse parts : Load α) ≠ .ok a := by
  unfold refuse
  split_ifs <;> exact fun h => nomatch h

@[simp] theorem refuse_eq_ok {parts : List Part} {a : α} :
    (refuse parts : Load α) = .ok a ↔ False := iff_false_intro refuse_ne_ok

theorem refuse_failsClosed {parts : List Part} :
    FailsClosed (refuse parts : Load α) ↔ ∀ p ∈ parts, p.shows = true := by
  unfold refuse
  split_ifs with h
  · rw [List.all_eq_true] at h
    exact iff_of_true (failsOnly_error.2 trivial) h
  · rw [List.all_eq_true] at h
    exact iff_of_false (fun hf => hf _ rfl) h

@[simp] theorem refuse_text_failsClosed : FailsClosed (refuse [.text message] : Load α) :=
  refuse_failsClosed.2 fun p hp => by rw [List.mem_singleton.1 hp]; rfl

@[simp] theorem requireMapping_ok :
    requireMapping raw what path = .ok m ↔ raw = .dict m := by
  cases raw <;> simp [requireMapping]

@[simp] theorem requireMapping_failsClosed : FailsClosed (requireMapping raw what path) := by
  cases raw <;> simp [requireMapping]

@[simp] theorem subscript_ok : subscript m key = .ok v ↔ m.get? key = some v := by
  unfold subscript
  split <;> simp_all

theorem subscript_failsClosed : FailsClosed (subscript m key) ↔ ∃ v, m.get? key = some v := by
  unfold subscript
  split <;> simp_all [BuildError.IsDeclarationError]

@[simp] theorem requireKeys_ok {required : List String} {u : Unit} :
    requireKeys m required what path = .ok u ↔ ∀ k ∈ required, ∃ v, m.get? k = some v := by
  unfold requireKeys
  dsimp only
  split_ifs with h
  · simp only [List.filter_eq_nil_iff, Option.isNone_iff_eq_none, ← ne_eq,
      Option.ne_none_iff_exists'] at h
    exact iff_of_true rfl h
  · simp only [List.filter_eq_nil_iff, Option.isNone_iff_eq_none, ← ne_eq,
      Option.ne_none_iff_exists'] at h
    simpa using h

@[simp] theorem requireKeys_failsClosed {required : List String} :
    FailsClosed (requireKeys m required what path) := by
  unfold requireKeys
  dsimp only
  split_ifs
  · exact failsOnly_ok _
  · exact refuse_text_failsClosed

theorem shows_str (s : String) : (Value.str s).shows = true := rfl

/-- A check against a vocabulary passes on the texts of the vocabulary. -/
theorem requireOneOf_ok {ofText? : String → Option α} {text : α → String}
    (h : ∀ {s a}, ofText? s = some a ↔ s = text a) {before after : String} {a : α} :
    requireOneOf ofText? v before after = .ok a ↔ v = .str (text a) := by
  have hv : v.text?.bind ofText? = some a ↔ v = .str (text a) := by
    simp [Option.bind_eq_some_iff, h]
  rw [← hv]
  unfold requireOneOf
  cases v.text?.bind ofText? with
  | none => simp
  | some b => simp

/-- A check against a vocabulary fails closed where its value can be shown. -/
theorem requireOneOf_failsClosed {ofText? : String → Option α} {before after : String} :
    FailsClosed (requireOneOf ofText? v before after) ↔ v.shows = true := by
  unfold requireOneOf
  split
  · rename_i a h
    obtain ⟨s, hs, -⟩ := Option.bind_eq_some_iff.1 h
    rw [Value.text?_eq_some.1 hs]
    exact iff_of_true (failsOnly_ok _) (shows_str s)
  · rw [refuse_failsClosed]
    simp [Part.shows]

@[simp] theorem requireText_ok {s : String} :
    requireText v message = .ok s ↔ v = .str s ∧ s ≠ "" := by
  unfold requireText
  split
  · rename_i t
    split_ifs with h <;> simp
    · rintro rfl
      exact h
    · rintro rfl
      simpa using h
  · rename_i h
    simp only [refuse_eq_ok, false_iff, not_and]
    rintro rfl
    exact absurd rfl (h s)

@[simp] theorem requireText_failsClosed : FailsClosed (requireText v message) := by
  unfold requireText
  split
  · split_ifs
    · exact failsOnly_ok _
    · exact refuse_text_failsClosed
  · exact refuse_text_failsClosed

@[simp] theorem requirePositive_ok {i : ℤ} :
    requirePositive v message = .ok i ↔ v = .int i ∧ 1 ≤ i := by
  unfold requirePositive
  split
  · rename_i j
    split_ifs with h <;> simp
    · rintro rfl
      exact h
    · rintro rfl
      omega
  · rename_i h
    simp only [refuse_eq_ok, false_iff, not_and]
    rintro rfl
    exact absurd rfl (h i)

@[simp] theorem requirePositive_failsClosed : FailsClosed (requirePositive v message) := by
  unfold requirePositive
  split
  · split_ifs
    · exact failsOnly_ok _
    · exact refuse_text_failsClosed
  · exact refuse_text_failsClosed

@[simp] theorem requireItems_ok {l : List (Value String)} :
    requireItems v message = .ok l ↔ v = .list l ∧ l ≠ [] := by
  unfold requireItems
  split
  · rename_i a l'
    simp only [Except.ok.injEq, Value.list.injEq]
    exact ⟨fun h => ⟨h, by rw [← h]; simp⟩, fun h => h.1⟩
  · rename_i h
    simp only [refuse_eq_ok, false_iff, not_and, not_not]
    rintro rfl
    cases l with
    | nil => rfl
    | cons a l => exact absurd rfl (h a l)

@[simp] theorem requireItems_failsClosed : FailsClosed (requireItems v message) := by
  unfold requireItems
  split
  · exact failsOnly_ok _
  · exact refuse_text_failsClosed

theorem requirePosition_ok {p : AutonomyPosition} :
    requirePosition m key what path = .ok p ↔ m.get? key = some (.str p.text) := by
  simp [requirePosition, except_bind_ok, requireOneOf_ok AutonomyPosition.ofText?_eq_some]

theorem requirePosition_failsClosed (hk : ∃ v, m.get? key = some v) :
    FailsClosed (requirePosition m key what path) ↔
      ∀ v, m.get? key = some v → v.shows = true := by
  rw [requirePosition, failsClosed_bind]
  simp only [subscript_failsClosed, hk, true_and, subscript_ok, requireOneOf_failsClosed]

theorem requireMode_ok {mode : PositionPolicyMode} :
    requireMode v what path = .ok mode ↔ v = .str mode.text :=
  requireOneOf_ok PositionPolicyMode.ofText?_eq_some

/-! ## Windows and transitions -/

theorem buildWindow_ok {w : PaaWindow} : buildWindow raw path = .ok w ↔ w.AuthoredIn raw := by
  simp only [buildWindow, except_bind_ok, requireMapping_ok, requireKeys_ok, subscript_ok,
    requireOneOf_ok WindowKind.ofText?_eq_some]
  constructor
  · rintro ⟨m, rfl, -, -, kind, hkind, size, hsize, k, rfl, h⟩
    cases k with
    | cases =>
      simp only [except_bind_ok, requirePositive_ok, except_pure_ok] at h
      obtain ⟨n, ⟨rfl, hpos⟩, rfl⟩ := h
      exact ⟨hkind, hsize, hpos⟩
    | duration =>
      simp only [except_bind_ok, requireText_ok, except_pure_ok] at h
      obtain ⟨s, ⟨rfl, hne⟩, rfl⟩ := h
      exact ⟨hkind, hsize, hne⟩
  · cases w with
    | cases n =>
      rintro ⟨hkind, hsize, hpos⟩
      obtain ⟨m, rfl⟩ := Value.dict_of_member hkind
      rw [Value.member_dict] at hkind hsize
      refine ⟨m, rfl, (), by simp [hkind, hsize], _, hkind, _, hsize, .cases, rfl, ?_⟩
      simp only [except_bind_ok, requirePositive_ok, except_pure_ok]
      exact ⟨n, ⟨rfl, hpos⟩, rfl⟩
    | duration s =>
      rintro ⟨hkind, hsize, hne⟩
      obtain ⟨m, rfl⟩ := Value.dict_of_member hkind
      rw [Value.member_dict] at hkind hsize
      refine ⟨m, rfl, (), by simp [hkind, hsize], _, hkind, _, hsize, .duration, rfl, ?_⟩
      simp only [except_bind_ok, requireText_ok, except_pure_ok]
      exact ⟨s, ⟨rfl, hne⟩, rfl⟩

theorem buildPromotion_ok {p : PaaPromotion} :
    buildPromotion raw path = .ok p ↔ p.AuthoredIn raw := by
  simp only [buildPromotion, except_bind_ok, requireMapping_ok, requireKeys_ok, subscript_ok,
    requireOneOf_ok PromotionExecution.ofText?_eq_some, requireText_ok, requirePosition_ok,
    buildWindow_ok, except_pure_ok]
  constructor
  · rintro ⟨m, rfl, -, -, _, hexec, execution, rfl, _, hreport, report, ⟨rfl, hne⟩, fromPosition,
      hfrom, toPosition, hto, w, hw, window, hwindow, rfl⟩
    exact ⟨hfrom, hto, ⟨hreport, hne⟩, ⟨w, hw, hwindow⟩, hexec⟩
  · rintro ⟨hfrom, hto, ⟨hreport, hne⟩, ⟨w, hw, hwindow⟩, hexec⟩
    obtain ⟨m, rfl⟩ := Value.dict_of_member hfrom
    rw [Value.member_dict] at hfrom hto hreport hw hexec
    exact ⟨m, rfl, (), by simp [hfrom, hto, hreport, hw, hexec], _, hexec, _, rfl, _, hreport, _,
      ⟨rfl, hne⟩, _, hfrom, _, hto, w, hw, _, hwindow, rfl⟩

theorem buildDemotion_ok {d : PaaDemotion} :
    buildDemotion raw path = .ok d ↔ d.AuthoredIn raw := by
  simp only [buildDemotion, except_bind_ok, requireMapping_ok, requireKeys_ok, subscript_ok,
    requireText_ok, requirePosition_ok, buildWindow_ok, except_pure_ok]
  constructor
  · rintro ⟨m, rfl, -, -, _, htrigger, trigger, ⟨rfl, hne⟩, fromPosition, hfrom, toPosition, hto,
      w, hw, window, hwindow, rfl⟩
    exact ⟨hfrom, hto, ⟨htrigger, hne⟩, w, hw, hwindow⟩
  · rintro ⟨hfrom, hto, ⟨htrigger, hne⟩, w, hw, hwindow⟩
    obtain ⟨m, rfl⟩ := Value.dict_of_member hfrom
    rw [Value.member_dict] at hfrom hto htrigger hw
    exact ⟨m, rfl, (), by simp [hfrom, hto, htrigger, hw], _, htrigger, _, ⟨rfl, hne⟩, _, hfrom, _,
      hto, w, hw, _, hwindow, rfl⟩

/-! ## Placements -/

theorem buildSelector_ok {s : PaaEvaluatorSelector} :
    buildSelector raw what path = .ok s ↔ s.AuthoredIn raw := by
  simp only [buildSelector, except_bind_ok, requireMapping_ok, requireKeys_ok, subscript_ok,
    requireText_ok]
  constructor
  · rintro ⟨m, rfl, -, -, _, hproperty, property, ⟨rfl, hp⟩, _, htechnique, technique, ⟨rfl, ht⟩, h⟩
    split at h
    · rename_i hv
      obtain rfl := except_pure_ok.1 h
      exact ⟨⟨hproperty, hp⟩, ⟨htechnique, ht⟩, .inl hv⟩
    · rename_i hv
      obtain rfl := except_pure_ok.1 h
      exact ⟨⟨hproperty, hp⟩, ⟨htechnique, ht⟩, .inr hv⟩
    · rename_i version _ hv
      simp only [except_bind_ok, requireText_ok, except_pure_ok] at h
      obtain ⟨t, ⟨rfl, hne⟩, rfl⟩ := h
      exact ⟨⟨hproperty, hp⟩, ⟨htechnique, ht⟩, hv, hne⟩
  · rintro ⟨⟨hproperty, hp⟩, ⟨htechnique, ht⟩, hv⟩
    obtain ⟨m, rfl⟩ := Value.dict_of_member hproperty
    rw [Value.member_dict] at hproperty htechnique
    refine ⟨m, rfl, (), by simp [hproperty, htechnique], _, hproperty, _, ⟨rfl, hp⟩, _, htechnique,
      _, ⟨rfl, ht⟩, ?_⟩
    obtain ⟨property, technique, version⟩ := s
    cases version with
    | none =>
      rcases hv with hv | hv <;> rw [Value.member_dict] at hv <;> rw [hv] <;> rfl
    | some version =>
      obtain ⟨hv, hne⟩ := hv
      rw [Value.member_dict] at hv
      rw [hv]
      simp only [except_bind_ok, requireText_ok, except_pure_ok]
      exact ⟨version, ⟨rfl, hne⟩, rfl⟩

theorem buildOverride_ok {index : ℕ} {o : PaaPlacementOverride} :
    buildOverride what path index raw = .ok o ↔ o.AuthoredIn raw := by
  simp only [buildOverride, except_bind_ok, requireMapping_ok, requireKeys_ok, subscript_ok,
    buildSelector_ok, requireMode_ok, except_pure_ok]
  constructor
  · rintro ⟨m, rfl, -, -, s, hs, selector, hselector, _, hplacement, mode, rfl, rfl⟩
    exact ⟨⟨s, hs, hselector⟩, hplacement⟩
  · rintro ⟨⟨s, hs, hselector⟩, hplacement⟩
    obtain ⟨m, rfl⟩ := Value.dict_of_member hs
    rw [Value.member_dict] at hs hplacement
    exact ⟨m, rfl, (), by simp [hs, hplacement], s, hs, _, hselector, _, hplacement, _, rfl, rfl⟩

theorem buildOverrides_ok {index : ℕ} {l : List (Value String)} {os : List PaaPlacementOverride} :
    checkEach (buildOverride what path) index l = .ok os ↔
      List.Forall₂ PaaPlacementOverride.AuthoredIn l os := by
  apply checkEach_ok
  intro i v o
  exact buildOverride_ok

/-- A bare mode, or a mapping. -/
theorem buildPlacement_ok {position : String} {p : PaaPlacement} :
    buildPlacement raw position path = .ok p ↔ p.AuthoredIn raw := by
  unfold buildPlacement PaaPlacement.AuthoredIn
  obtain ⟨default, overrides⟩ := p
  dsimp only
  split
  · simp only [except_bind_ok, requireMode_ok, except_pure_ok, PaaPlacement.mk.injEq,
      Value.member_scalar, false_and, or_false, reduceCtorEq]
    constructor
    · rintro ⟨mode, hmode, rfl, rfl⟩
      exact ⟨hmode, rfl⟩
    · rintro ⟨hmode, rfl⟩
      exact ⟨default, hmode, rfl, rfl⟩
  · rename_i hstr
    have hbare : raw ≠ .str default.text := hstr _
    simp only [except_bind_ok, requireMapping_ok, requireKeys_ok, subscript_ok, requireItems_ok,
      requireMode_ok, except_pure_ok, buildOverrides_ok, hbare, false_and, false_or,
      PaaPlacement.mk.injEq]
    constructor
    · rintro ⟨m, rfl, -, -, _, hoverrides, l, ⟨rfl, hne⟩, built, hbuilt, _, hdefault, mode, rfl,
        rfl, rfl⟩
      refine ⟨hdefault, ?_, l, hoverrides, hbuilt⟩
      rintro rfl
      exact hne (List.forall₂_nil_right_iff.1 hbuilt)
    · rintro ⟨hdefault, hne, l, hoverrides, hbuilt⟩
      obtain ⟨m, rfl⟩ := Value.dict_of_member hdefault
      rw [Value.member_dict] at hdefault hoverrides
      refine ⟨m, rfl, (), by simp [hdefault, hoverrides], _, hoverrides, l, ⟨rfl, ?_⟩, overrides,
        hbuilt, _, hdefault, default, rfl, rfl, rfl⟩
      rintro rfl
      exact hne (List.forall₂_nil_left_iff.1 hbuilt)

/-! ## Sorting keys -/

/-- At most one key, or keys of one order. -/
def Comparable (keys : List (Scalar String)) : Prop :=
  keys.length ≤ 1 ∨ ∃ o, ∀ k ∈ keys, k.order = some o

variable {a k : Scalar String} {keys keys' : List (Scalar String)} {e : BuildError}

theorem keyLt_ok {b : Bool} (h : keyLt a k = .ok b) : ∃ o, a.order = some o ∧ k.order = some o := by
  unfold keyLt at h
  split_ifs at h with ho
  obtain ⟨o, ha⟩ := Option.isSome_iff_exists.1 ho.1
  exact ⟨o, ha, ho.2 ▸ ha⟩

theorem keyLt_of_order {o : KeyOrder} (ha : a.order = some o) (hk : k.order = some o) :
    ∃ b, keyLt a k = .ok b := by
  unfold keyLt
  rw [if_pos ⟨by rw [ha]; rfl, ha.trans hk.symm⟩]
  split <;> exact ⟨_, rfl⟩

theorem keyLt_error (h : keyLt a k = .error e) : ¬ e.IsDeclarationError := by
  unfold keyLt at h
  split_ifs at h
  · split at h <;> cases h
  · cases h
    exact not_false

theorem insertKey_ok (h : insertKey k keys = .ok keys') :
    keys'.Perm (k :: keys) ∧ ∀ a ∈ keys.head?, ∃ o, a.order = some o ∧ k.order = some o := by
  induction keys generalizing keys' with
  | nil =>
    cases h
    exact ⟨.refl _, by simp⟩
  | cons a keys ih =>
    obtain ⟨b, hlt, h⟩ := except_bind_ok.1 h
    refine ⟨?_, fun x hx => Option.some.inj hx ▸ keyLt_ok hlt⟩
    cases b with
    | false =>
      obtain rfl := except_pure_ok.1 h
      exact .refl _
    | true =>
      obtain ⟨l, hl, h⟩ := except_bind_ok.1 h
      obtain rfl := except_pure_ok.1 h
      exact ((ih hl).1.cons a).trans (.swap k a keys)

theorem insertKey_of_order {o : KeyOrder} (hk : k.order = some o)
    (h : ∀ a ∈ keys, a.order = some o) : ∃ keys', insertKey k keys = .ok keys' := by
  induction keys with
  | nil => exact ⟨_, rfl⟩
  | cons a keys ih =>
    obtain ⟨b, hb⟩ := keyLt_of_order (h a List.mem_cons_self) hk
    obtain ⟨l, hl⟩ := ih fun x hx => h x (List.mem_cons_of_mem a hx)
    rw [insertKey, hb]
    cases b with
    | false => exact ⟨_, rfl⟩
    | true => exact ⟨a :: l, except_bind_ok.2 ⟨true, rfl, except_bind_ok.2 ⟨l, hl, rfl⟩⟩⟩

theorem insertKey_error (h : insertKey k keys = .error e) : ¬ e.IsDeclarationError := by
  induction keys with
  | nil => cases h
  | cons a keys ih =>
    rcases except_bind_error.1 h with h | ⟨b, -, h⟩
    · exact keyLt_error h
    · cases b with
      | false => cases h
      | true =>
        rcases except_bind_error.1 h with h | ⟨l, -, h⟩
        · exact ih h
        · cases h

/-- Keys that `sorted` puts in order are comparable, and none is lost. -/
theorem sortedKeys_ok (h : sortedKeys keys = .ok keys') : keys'.Perm keys ∧ Comparable keys := by
  induction keys generalizing keys' with
  | nil =>
    cases h
    exact ⟨.refl _, .inl (by simp)⟩
  | cons k keys ih =>
    obtain ⟨l, hl, h⟩ := except_bind_ok.1 h
    obtain ⟨hp, hc⟩ := ih hl
    obtain ⟨hp', hhead⟩ := insertKey_ok h
    refine ⟨hp'.trans (hp.cons k), ?_⟩
    cases l with
    | nil =>
      rw [List.nil_perm.1 hp]
      exact .inl le_rfl
    | cons a l =>
      -- the first of the sorted keys is compared with the new one, and orders all others
      obtain ⟨o, ha, hk⟩ := hhead a rfl
      have hmem : a ∈ keys := hp.subset List.mem_cons_self
      refine .inr ⟨o, List.forall_mem_cons.2 ⟨hk, fun x hx => ?_⟩⟩
      rcases hc with hlen | ⟨o', ho'⟩
      · obtain ⟨y, rfl⟩ : ∃ y, keys = [y] := by
          rw [← List.length_eq_one_iff]
          have := List.length_pos_of_mem hmem
          omega
        rw [List.mem_singleton.1 hx, ← List.mem_singleton.1 hmem]
        exact ha
      · rw [ho' x hx, ← ho' a hmem]
        exact ha

theorem sortedKeys_of_comparable (h : Comparable keys) : ∃ keys', sortedKeys keys = .ok keys' := by
  rcases h with h | ⟨o, ho⟩
  · match keys, h with
    | [], _ => exact ⟨_, rfl⟩
    | [k], _ => exact ⟨_, rfl⟩
    | _ :: _ :: _, h => simp at h
  · induction keys with
    | nil => exact ⟨_, rfl⟩
    | cons k keys ih =>
      obtain ⟨hk, hkeys⟩ := List.forall_mem_cons.1 ho
      obtain ⟨l, hl⟩ := ih hkeys
      have hp := (sortedKeys_ok hl).1
      obtain ⟨l', hl'⟩ := insertKey_of_order hk fun a ha => hkeys a (hp.subset ha)
      exact ⟨l', except_bind_ok.2 ⟨l, hl, hl'⟩⟩

theorem sortedKeys_error (h : sortedKeys keys = .error e) : ¬ e.IsDeclarationError := by
  induction keys with
  | nil => cases h
  | cons k keys ih =>
    rcases except_bind_error.1 h with h | ⟨l, -, h⟩
    · exact ih h
    · exact insertKey_error h

/-- `sorted` fails exactly on keys that have no common order. -/
theorem sortedKeys_failsClosed : FailsClosed (sortedKeys keys) ↔ Comparable keys := by
  refine ⟨fun h => ?_, fun h => ?_⟩
  · rcases except_cases (sortedKeys keys) with ⟨l, hl⟩ | ⟨e, he⟩
    · exact (sortedKeys_ok hl).2
    · exact absurd (h e he) (sortedKeys_error he)
  · obtain ⟨l, hl⟩ := sortedKeys_of_comparable h
    rw [hl]
    exact failsOnly_ok l

/-! ## Position policies -/

/-- The keys of a policy that are no positions. -/
def unknownKeys (m : Members String) : List (Scalar String) :=
  (m.map (·.1)).filter (!·.isPosition)

theorem unknownKeys_eq_nil : unknownKeys m = [] ↔ ∀ e ∈ m, e.1.isPosition = true := by
  simp [unknownKeys, List.filter_eq_nil_iff]

theorem buildPlacementAt_ok {p : AutonomyPosition} {b : AutonomyPosition × PaaPlacement} :
    buildPlacementAt m path p = .ok b ↔
      p = b.1 ∧ ∃ raw, m.get? p.text = some raw ∧ b.2.AuthoredIn raw := by
  simp only [buildPlacementAt, except_bind_ok, subscript_ok, buildPlacement_ok, except_pure_ok]
  constructor
  · rintro ⟨raw, hraw, placement, hp, rfl⟩
    exact ⟨rfl, raw, hraw, hp⟩
  · rintro ⟨rfl, raw, hraw, hp⟩
    exact ⟨raw, hraw, b.2, hp, rfl⟩

theorem buildPlacements_ok {i : ℕ} {l : List AutonomyPosition}
    {ps : List (AutonomyPosition × PaaPlacement)} :
    checkEach (fun _ => buildPlacementAt m path) i l = .ok ps ↔
      List.Forall₂ (fun position e => position = e.1 ∧
        ∃ raw, m.get? position.text = some raw ∧ e.2.AuthoredIn raw) l ps := by
  apply checkEach_ok
  intro i p b
  exact buildPlacementAt_ok

theorem buildPositionPolicy_ok {p : PaaPositionPolicy} :
    buildPositionPolicy raw path = .ok p ↔ p.AuthoredIn raw := by
  unfold buildPositionPolicy
  rw [except_bind_ok]
  simp only [requireMapping_ok]
  refine exists_congr fun m => and_congr_right fun _ => ?_
  cases m with
  | nil => simp
  | cons e m =>
    rw [List.isEmpty_cons, if_neg Bool.false_ne_true, except_bind_ok]
    constructor
    · rintro ⟨unknown, hsort, h⟩
      split_ifs at h with hu
      · exact absurd h refuse_ne_ok
      · rw [not_not] at hu
        subst hu
        obtain ⟨placements, hp, h⟩ := except_bind_ok.1 h
        obtain rfl := except_pure_ok.1 h
        refine ⟨List.cons_ne_nil e m, ?_, ?_⟩
        · exact unknownKeys_eq_nil.1 (List.nil_perm.1 (sortedKeys_ok hsort).1)
        · exact buildPlacements_ok.1 hp
    · rintro ⟨-, hpos, hp⟩
      have hu : unknownKeys (e :: m) = [] := unknownKeys_eq_nil.2 hpos
      refine ⟨[], by rw [← unknownKeys, hu]; rfl, ?_⟩
      rw [if_neg (by simp), except_bind_ok]
      exact ⟨p.placements, buildPlacements_ok.2 hp, rfl⟩

/-! ## Evaluators and scopes -/

/-- A registration registers the evaluator. -/
def Registered (registry : List ProducerRegistration) (e : PaaEvaluator) : Prop :=
  ∃ r ∈ registry, r.evaluator = e

variable {registry : List ProducerRegistration}

theorem resolveProducer_isSome {e : PaaEvaluator} :
    (∃ r, resolveProducer e registry = some r) ↔ Registered registry e := by
  rw [← Option.isSome_iff_exists, resolveProducer, List.find?_isSome]
  simp [Registered]

theorem buildEvaluationBasis_ok {b : PaaEvaluationBasis} :
    buildEvaluationBasis raw path = .ok b ↔ b.AuthoredIn raw := by
  simp only [buildEvaluationBasis, except_bind_ok, requireMapping_ok, requireKeys_ok, subscript_ok,
    requireText_ok, except_pure_ok]
  constructor
  · rintro ⟨m, rfl, -, -, _, hkind, kind, ⟨rfl, hk⟩, _, href, ref, ⟨rfl, hr⟩, rfl⟩
    exact ⟨⟨hkind, hk⟩, href, hr⟩
  · rintro ⟨⟨hkind, hk⟩, href, hr⟩
    obtain ⟨m, rfl⟩ := Value.dict_of_member hkind
    rw [Value.member_dict] at hkind href
    exact ⟨m, rfl, (), by simp [hkind, href], _, hkind, _, ⟨rfl, hk⟩, _, href, _, ⟨rfl, hr⟩, rfl⟩

theorem buildEvaluator_ok {e : PaaEvaluator} :
    buildEvaluator raw path registry = .ok e ↔ e.AuthoredIn raw ∧ Registered registry e := by
  simp only [buildEvaluator, except_bind_ok, requireMapping_ok, requireKeys_ok, subscript_ok,
    requireText_ok, buildEvaluationBasis_ok]
  constructor
  · rintro ⟨m, rfl, -, -, property, ⟨_, hproperty, rfl, h₁⟩, target, ⟨_, htarget, rfl, h₂⟩,
      technique, ⟨_, htechnique, rfl, h₃⟩, status, ⟨_, hstatus, rfl, h₄⟩, authority,
      ⟨_, hauthority, rfl, h₅⟩, version, ⟨_, hversion, rfl, h₆⟩, b, hb, basis, hbasis, h⟩
    split at h
    · rename_i r hr
      obtain rfl := except_pure_ok.1 h
      exact ⟨⟨⟨hproperty, h₁⟩, ⟨htarget, h₂⟩, ⟨htechnique, h₃⟩, ⟨hstatus, h₄⟩, ⟨hauthority, h₅⟩,
        ⟨hversion, h₆⟩, b, hb, hbasis⟩, resolveProducer_isSome.1 ⟨r, hr⟩⟩
    · exact absurd h refuse_ne_ok
  · rintro ⟨⟨⟨hproperty, h₁⟩, ⟨htarget, h₂⟩, ⟨htechnique, h₃⟩, ⟨hstatus, h₄⟩, ⟨hauthority, h₅⟩,
      ⟨hversion, h₆⟩, b, hb, hbasis⟩, hr⟩
    obtain ⟨m, rfl⟩ := Value.dict_of_member hproperty
    rw [Value.member_dict] at hproperty htarget htechnique hstatus hauthority hversion hb
    refine ⟨m, rfl, (), ?_, _, ⟨_, hproperty, rfl, h₁⟩, _, ⟨_, htarget, rfl, h₂⟩, _,
      ⟨_, htechnique, rfl, h₃⟩, _, ⟨_, hstatus, rfl, h₄⟩, _, ⟨_, hauthority, rfl, h₅⟩, _,
      ⟨_, hversion, rfl, h₆⟩, b, hb, _, hbasis, ?_⟩
    · simp [hproperty, htarget, htechnique, hstatus, hauthority, hversion, hb]
    · obtain ⟨r, hr⟩ := resolveProducer_isSome.2 hr
      rw [hr]
      rfl

theorem readScopes_ok {seen scopes : List String} {l : List (Value String)} :
    readScopes path seen l = .ok scopes ↔
      l = scopes.map .str ∧ "" ∉ scopes ∧ scopes.Nodup ∧ ∀ s ∈ scopes, s ∉ seen := by
  induction l generalizing seen scopes with
  | nil =>
    rw [readScopes]
    constructor
    · intro h
      cases h
      simp
    · rintro ⟨h, -⟩
      rw [List.map_eq_nil_iff.1 h.symm]
  | cons v l ih =>
    simp only [readScopes, except_bind_ok, requireText_ok]
    constructor
    · rintro ⟨s, ⟨rfl, hne⟩, h⟩
      split_ifs at h with hs
      · exact absurd h refuse_ne_ok
      · simp only [except_bind_ok, except_pure_ok, ih] at h
        obtain ⟨rest, ⟨rfl, hempty, hnodup, hseen⟩, rfl⟩ := h
        simp only [List.mem_cons, not_or] at hseen
        refine ⟨rfl, ?_, List.nodup_cons.2 ⟨fun h => (hseen s h).1 rfl, hnodup⟩, ?_⟩
        · simp [hempty, hne.symm]
        · exact List.forall_mem_cons.2 ⟨hs, fun t ht => (hseen t ht).2⟩
    · rintro ⟨h, hempty, hnodup, hseen⟩
      cases scopes with
      | nil => cases h
      | cons s rest =>
        obtain ⟨rfl, rfl⟩ := List.cons.inj h
        obtain ⟨hs, hseen⟩ := List.forall_mem_cons.1 hseen
        obtain ⟨hnot, hnodup⟩ := List.nodup_cons.1 hnodup
        simp only [List.mem_cons, not_or] at hempty
        refine ⟨s, ⟨rfl, Ne.symm hempty.1⟩, ?_⟩
        rw [if_neg hs, except_bind_ok]
        refine ⟨rest, ih.2 ⟨rfl, hempty.2, hnodup, fun t ht => ?_⟩, rfl⟩
        simp only [List.mem_cons, not_or]
        exact ⟨fun h => hnot (h ▸ ht), hseen t ht⟩

theorem buildScopes_ok {scopes : Option (List String)} :
    buildScopes m path = .ok scopes ↔ ScopesAuthoredIn (.dict m) scopes := by
  unfold buildScopes
  cases h : m.get? "scopes" with
  | none =>
    cases scopes with
    | none => exact iff_of_true rfl h
    | some l => simp [ScopesAuthoredIn, h]
  | some raw =>
    simp only [except_bind_ok, requireItems_ok, readScopes_ok, except_pure_ok]
    cases scopes with
    | none => simp [ScopesAuthoredIn, h]
    | some l =>
      simp only [ScopesAuthoredIn, Value.member_dict, h, Option.some.injEq]
      constructor
      · rintro ⟨_, ⟨rfl, hne⟩, _, ⟨rfl, hempty, hnodup, -⟩, rfl⟩
        exact ⟨rfl, fun h => hne (by rw [h]; rfl), hnodup, hempty⟩
      · rintro ⟨rfl, hne, hnodup, hempty⟩
        exact ⟨_, ⟨rfl, fun h => hne (List.map_eq_nil_iff.1 h)⟩, l,
          ⟨rfl, hempty, hnodup, by simp⟩, rfl⟩

/-! ## The whole document -/

theorem buildEvaluators_ok {i : ℕ} {l : List (Value String)} {es : List PaaEvaluator} :
    checkEach (fun _ e => buildEvaluator e path registry) i l = .ok es ↔
      List.Forall₂ PaaEvaluator.AuthoredIn l es ∧ ∀ e ∈ es, Registered registry e := by
  have hone : ∀ (_ : ℕ) (v : Value String) (e : PaaEvaluator),
      buildEvaluator v path registry = .ok e ↔ e.AuthoredIn v ∧ Registered registry e :=
    fun _ _ _ => buildEvaluator_ok
  rw [checkEach_ok hone]
  induction l generalizing es with
  | nil => cases es <;> simp
  | cons v l ih =>
    cases es with
    | nil => simp
    | cons e es =>
      simp only [List.forall₂_cons, List.forall_mem_cons, ih]
      exact and_and_and_comm

/-- The fields are built exactly where the document authors them and the registry has each
evaluator. -/
theorem buildFields_ok {d : PaaTaskDeclaration} :
    buildFields raw path registry = .ok d ↔
      d.AuthoredIn raw ∧ ∀ e ∈ d.evaluators, Registered registry e := by
  simp only [buildFields, except_bind_ok, requireMapping_ok, requireKeys_ok, subscript_ok,
    requireText_ok, requirePositive_ok, requireItems_ok, requirePosition_ok,
    requireOneOf_ok Deployment.ofText?_eq_some, buildEvaluators_ok, buildPositionPolicy_ok,
    buildPromotion_ok, buildDemotion_ok, buildScopes_ok, except_pure_ok]
  constructor
  · rintro ⟨m, rfl, -, -, _, htask, task, ⟨rfl, hne⟩, _, hversion, version, ⟨rfl, hpos⟩, _,
      hdeployment, deployment, rfl, _, hes, l, ⟨rfl, hl⟩, initial, hinitial, evaluators,
      ⟨hbuilt, hreg⟩, p, hp, policy, hpolicy, q, hq, promotion, hpromotion, r, hr, demotion,
      hdemotion, scopes, hscopes, rfl⟩
    exact ⟨⟨⟨htask, hne⟩, ⟨hversion, hpos⟩, hdeployment, hinitial, ⟨l, hes, hl, hbuilt⟩,
      ⟨p, hp, hpolicy⟩, ⟨q, hq, hpromotion⟩, ⟨r, hr, hdemotion⟩, hscopes⟩, hreg⟩
  · rintro ⟨⟨⟨htask, hne⟩, ⟨hversion, hpos⟩, hdeployment, hinitial, ⟨l, hes, hl, hbuilt⟩,
      ⟨p, hp, hpolicy⟩, ⟨q, hq, hpromotion⟩, ⟨r, hr, hdemotion⟩, hscopes⟩, hreg⟩
    obtain ⟨m, rfl⟩ := Value.dict_of_member htask
    rw [Value.member_dict] at htask hversion hdeployment hinitial hes hp hq hr
    refine ⟨m, rfl, (), ?_, _, htask, _, ⟨rfl, hne⟩, _, hversion, _, ⟨rfl, hpos⟩, _, hdeployment,
      _, rfl, _, hes, l, ⟨rfl, hl⟩, _, hinitial, _, ⟨hbuilt, hreg⟩, p, hp, _, hpolicy, q, hq, _,
      hpromotion, r, hr, _, hdemotion, _, hscopes, rfl⟩
    simp [htask, hversion, hdeployment, hinitial, hes, hp, hq, hr]

end

end PaaRuntime
