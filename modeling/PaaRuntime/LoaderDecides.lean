import PaaRuntime.DeclarationRules
import PaaRuntime.TaskShape

/-!
# The loader decides the published rules

On a document of the published shape whose evaluators are registered, the loader succeeds exactly
where the document keeps the seven rules; otherwise it names a rule and a member of the document at
which that rule is broken (`buildDeclaration_decides`).
-/

namespace PaaRuntime

section

variable {raw : Value String} {d : PaaTaskDeclaration} {m : Members String}

/-! ## From a declaration to its document -/

/-- The placement of a position is authored under the position's text. -/
theorem placement_authored {policy : PaaPositionPolicy} (h : policy.AuthoredIn (.dict m))
    {position : AutonomyPosition} {p : PaaPlacement}
    (hp : policy.placement? position = some p) :
    ∃ v, m.get? position.text = some v ∧ p.AuthoredIn v := by
  obtain ⟨m', hm', -, -, hall⟩ := h
  cases hm'
  obtain ⟨e, he, rfl⟩ := Option.map_eq_some_iff.1 hp
  have hposition : e.1 = position := by simpa using List.find?_some he
  obtain ⟨i, hi⟩ := List.mem_iff_getElem?.1 (List.mem_of_find?_eq_some he)
  obtain ⟨q, -, rfl, v, hv, hauthored⟩ := forall₂_getElem?_right hall hi
  exact ⟨v, hposition ▸ hv, hauthored⟩

/-- A value under a key of the policy is the placement of the position that the key names. -/
theorem placement_of_member {policy : PaaPositionPolicy} (h : policy.AuthoredIn (.dict m))
    {key : String} {v : Value String} (hv : m.get? key = some v) :
    ∃ position p, key = AutonomyPosition.text position ∧ policy.placement? position = some p ∧
      p.AuthoredIn v := by
  have hauthored := h
  obtain ⟨m', hm', -, hkeys, hall⟩ := h
  cases hm'
  have hkey := hkeys _ (Members.mem_of_get? hv)
  obtain ⟨position, hposition⟩ : ∃ p, AutonomyPosition.ofText? key = some p :=
    Option.isSome_iff_exists.1 hkey
  obtain rfl := AutonomyPosition.ofText?_eq_some.1 hposition
  have hmem : position ∈ positionsOf m :=
    List.mem_filter.2 ⟨mem_positionsInOrder position, by rw [hv]; rfl⟩
  obtain ⟨i, hi⟩ := List.mem_iff_getElem?.1 hmem
  obtain ⟨e, he, rfl, -⟩ := forall₂_getElem?_left hall hi
  obtain ⟨p, hp⟩ : ∃ p, policy.placement? e.1 = some p := by
    rw [PaaPositionPolicy.placement?, ← Option.isSome_iff_exists, Option.isSome_map,
      List.find?_isSome]
    exact ⟨e, List.mem_of_getElem? he, by simp⟩
  obtain ⟨w, hw, hpw⟩ := placement_authored hauthored hp
  exact ⟨e.1, p, rfl, hp, Option.some.inj (hw.symm.trans hv) ▸ hpw⟩

theorem declared_iff (h : d.AuthoredIn raw) {key : String} :
    Declared raw key ↔
      ∃ position, key = AutonomyPosition.text position ∧ d.positionPolicy.declares position := by
  obtain ⟨policy, hpolicy, hauthored⟩ := h.positionPolicy
  obtain ⟨m, rfl, -⟩ := id hauthored
  constructor
  · rintro ⟨policy', v, hpolicy', hv⟩
    cases hpolicy.symm.trans hpolicy'
    obtain ⟨position, p, rfl, hp, -⟩ := placement_of_member hauthored hv
    exact ⟨position, rfl, by rw [PaaPositionPolicy.declares, hp]; rfl⟩
  · rintro ⟨position, rfl, hp⟩
    obtain ⟨p, hp⟩ := Option.isSome_iff_exists.1 hp
    obtain ⟨v, hv, -⟩ := placement_authored hauthored hp
    exact ⟨_, v, hpolicy, hv⟩

theorem declared_text (h : d.AuthoredIn raw) {position : AutonomyPosition} :
    Declared raw position.text ↔ d.positionPolicy.declares position = true := by
  rw [declared_iff h]
  refine ⟨fun ⟨q, hq, hd⟩ => ?_, fun hd => ⟨position, rfl, hd⟩⟩
  have hpq : some position = some q := by
    rw [← AutonomyPosition.ofText?_text position, hq, AutonomyPosition.ofText?_text]
  exact Option.some.inj hpq ▸ hd

/-- An override of the document is one of a placement of the declaration. -/
theorem override_of_overrideAt (h : d.AuthoredIn raw) {key : String} {i : ℕ}
    {default override : Value String} (ho : OverrideAt raw key i default override) :
    ∃ position p o, key = AutonomyPosition.text position ∧
      d.positionPolicy.placement? position = some p ∧ p.overrides[i]? = some o ∧
      default = .str p.default.text ∧ o.AuthoredIn override := by
  obtain ⟨policy, hpolicy, hauthored⟩ := h.positionPolicy
  obtain ⟨m, rfl, -⟩ := id hauthored
  obtain ⟨policy', v, l, hpolicy', hv, hdefault, hl, hi⟩ := ho
  cases hpolicy.symm.trans hpolicy'
  obtain ⟨position, p, rfl, hp, hpv⟩ := placement_of_member hauthored hv
  rcases hpv with ⟨rfl, -⟩ | ⟨hdefault', -, l', hl', hall⟩
  · cases hl
  · cases hl.symm.trans hl'
    cases hdefault.symm.trans hdefault'
    obtain ⟨o, ho, hoverride⟩ := forall₂_getElem?_left hall hi
    exact ⟨position, p, o, rfl, hp, ho, rfl, hoverride⟩

/-- An override of a placement of the declaration is one of the document. -/
theorem overrideAt_of_override (h : d.AuthoredIn raw) {position : AutonomyPosition}
    {p : PaaPlacement} {i : ℕ} {o : PaaPlacementOverride}
    (hp : d.positionPolicy.placement? position = some p) (ho : p.overrides[i]? = some o) :
    ∃ override, OverrideAt raw position.text i (.str p.default.text) override ∧
      o.AuthoredIn override := by
  obtain ⟨policy, hpolicy, hauthored⟩ := h.positionPolicy
  obtain ⟨m, rfl, -⟩ := id hauthored
  obtain ⟨v, hv, hpv⟩ := placement_authored hauthored hp
  rcases hpv with ⟨-, hnil⟩ | ⟨hdefault, -, l, hl, hall⟩
  · rw [hnil] at ho
    cases ho
  · obtain ⟨override, hi, hoverride⟩ := forall₂_getElem?_right hall ho
    exact ⟨override, ⟨_, v, l, hpolicy, hv, hdefault, hl, hi⟩, hoverride⟩

/-- A selector selects an evaluator of the document where the built one matches the built one. -/
theorem selects_iff {s : PaaEvaluatorSelector} {e : PaaEvaluator} {selector evaluator : Value String}
    (hs : s.AuthoredIn selector) (he : e.AuthoredIn evaluator) :
    Selects selector evaluator ↔ s.matches e = true := by
  have hinj : ∀ {a b : String}, (some (Value.str a) = some (Value.str b)) ↔ a = b := by simp
  rw [matches_iff]
  constructor
  · rintro ⟨hp, ht, hv⟩
    rw [hs.property.1, he.property.1, hinj] at hp
    rw [hs.technique.1, he.technique.1, hinj] at ht
    refine ⟨hp.symm, ht.symm, fun v hsv => ?_⟩
    have hversion := hs.version
    rw [hsv] at hversion
    have hev := hv v hversion.1
    rw [he.version.1, hinj] at hev
    exact hev
  · rintro ⟨hp, ht, hv⟩
    refine ⟨?_, ?_, fun v hsv => ?_⟩
    · rw [hs.property.1, he.property.1, hp]
    · rw [hs.technique.1, he.technique.1, ht]
    · have hversion := hs.version
      cases hsome : s.version with
      | none =>
        rw [hsome] at hversion
        rcases hversion with hnone | hnull
        · rw [hnone] at hsv
          cases hsv
        · rw [hnull] at hsv
          cases hsv
      | some w =>
        rw [hsome] at hversion
        obtain rfl := hinj.1 (hversion.1.symm.trans hsv)
        rw [he.version.1, hv w hsome]

/-- An override selects the evaluators whose indices its built selector matches. -/
theorem overrideSelects_iff (h : d.AuthoredIn raw) {o : PaaPlacementOverride}
    {override : Value String} (ho : o.AuthoredIn override) {i : ℕ} :
    OverrideSelects raw override i ↔ i ∈ matchingEvaluators o.selector d.evaluators := by
  obtain ⟨s, hs, hselector⟩ := ho.selector
  obtain ⟨l, hl, -, hall⟩ := h.evaluators
  rw [mem_matchingEvaluators]
  constructor
  · rintro ⟨s', l', v, hs', hl', hi, hsel⟩
    cases hs.symm.trans hs'
    cases hl.symm.trans hl'
    obtain ⟨e, he, hev⟩ := forall₂_getElem?_left hall hi
    exact ⟨e, he, (selects_iff hselector hev).1 hsel⟩
  · rintro ⟨e, he, hm⟩
    obtain ⟨v, hv, hev⟩ := forall₂_getElem?_right hall he
    exact ⟨s, l, v, hs, hl, hv, (selects_iff hselector hev).2 hm⟩

/-- The transitions of a declaration, each under its key. -/
def PaaTaskDeclaration.transitions (d : PaaTaskDeclaration) :
    List (String × AutonomyPosition × AutonomyPosition) :=
  [("promotion", d.promotion.fromPosition, d.promotion.toPosition),
    ("demotion", d.demotion.fromPosition, d.demotion.toPosition)]

/-- A transition of the document is one of the declaration. -/
theorem transition_of_member (h : d.AuthoredIn raw) {key : String}
    (hkey : key ∈ ["promotion", "demotion"]) {t : Value String} (ht : raw.member key = some t) :
    ∃ p q, (key, p, q) ∈ d.transitions ∧ t.member "from" = some (.str (AutonomyPosition.text p)) ∧
      t.member "to" = some (.str (AutonomyPosition.text q)) := by
  obtain rfl | rfl : key = "promotion" ∨ key = "demotion" := by simpa using hkey
  · obtain ⟨t', ht', hauthored⟩ := h.promotion
    obtain rfl := Option.some.inj (ht.symm.trans ht')
    exact ⟨_, _, List.mem_cons_self, hauthored.fromPosition, hauthored.toPosition⟩
  · obtain ⟨t', ht', hauthored⟩ := h.demotion
    obtain rfl := Option.some.inj (ht.symm.trans ht')
    exact ⟨_, _, List.mem_cons_of_mem _ List.mem_cons_self, hauthored.fromPosition,
      hauthored.toPosition⟩

theorem PaaTaskDeclaration.Sound.transition (h : d.Sound) {key : String} {p q : AutonomyPosition}
    (ht : (key, p, q) ∈ d.transitions) :
    p ≠ q ∧ d.positionPolicy.declares p = true ∧ d.positionPolicy.declares q = true := by
  rcases List.mem_cons.1 ht with ht | ht
  · cases ht
    exact h.promotion
  · cases List.mem_singleton.1 ht
    exact h.demotion

theorem position_text_inj {p q : AutonomyPosition} : p.text = q.text ↔ p = q := by
  refine ⟨fun h => ?_, fun h => h ▸ rfl⟩
  exact Option.some.inj ((AutonomyPosition.ofText?_eq_some.2 h).symm.trans
    (AutonomyPosition.ofText?_eq_some.2 rfl)).symm

theorem mode_text_inj {a b : PositionPolicyMode} : a.text = b.text ↔ a = b := by
  refine ⟨fun h => ?_, fun h => h ▸ rfl⟩
  exact Option.some.inj ((PositionPolicyMode.ofText?_eq_some.2 h).symm.trans
    (PositionPolicyMode.ofText?_eq_some.2 rfl)).symm

/-- A document that authors a sound declaration keeps the published rules. -/
theorem semanticRules_of_sound (h : d.AuthoredIn raw) (hs : d.Sound) : SemanticRules raw := by
  have hstr : ∀ {a b : String}, some (Value.str a) = some (Value.str b) → a = b := by simp
  refine ⟨?_, ?_, ?_, ?_, ?_, ?_, ?_⟩
  · intro p hp
    obtain rfl := hstr (h.initialPosition.symm.trans hp)
    exact (declared_text h).2 hs.initialPosition
  · intro key hkey t p q ht hp hq
    obtain ⟨p', q', hmem, hp', hq'⟩ := transition_of_member h hkey ht
    obtain rfl := hstr (hp'.symm.trans hp)
    obtain rfl := hstr (hq'.symm.trans hq)
    rw [ne_eq, position_text_inj]
    exact (hs.transition hmem).1
  · intro key hkey edge hedge t p ht hp
    obtain ⟨p', q', hmem, hp', hq'⟩ := transition_of_member h hkey ht
    obtain ⟨-, hfrom, hto⟩ := hs.transition hmem
    obtain rfl | rfl : edge = "from" ∨ edge = "to" := by simpa using hedge
    · obtain rfl := hstr (hp'.symm.trans hp)
      exact (declared_text h).2 hfrom
    · obtain rfl := hstr (hq'.symm.trans hp)
      exact (declared_text h).2 hto
  · intro key i default override ho
    obtain ⟨position, p, o, -, hp, hi, -, hauthored⟩ := override_of_overrideAt h ho
    obtain ⟨e, he⟩ := (hs.overrides position p hp).selects o (List.mem_of_getElem? hi)
    exact ⟨e, (overrideSelects_iff h hauthored).2 (he ▸ List.mem_singleton_self e)⟩
  · intro key i default override ho e e' he he'
    obtain ⟨position, p, o, -, hp, hi, -, hauthored⟩ := override_of_overrideAt h ho
    obtain ⟨a, ha⟩ := (hs.overrides position p hp).selects o (List.mem_of_getElem? hi)
    rw [overrideSelects_iff h hauthored, ha, List.mem_singleton] at he he'
    rw [he, he']
  · intro key i j default override override' ho ho' e he he'
    obtain ⟨position, p, o, rfl, hp, hi, -, hauthored⟩ := override_of_overrideAt h ho
    obtain ⟨position', p', o', hkey, hp', hj, -, hauthored'⟩ := override_of_overrideAt h ho'
    obtain rfl := position_text_inj.1 hkey
    obtain rfl := Option.some.inj (hp.symm.trans hp')
    have hsound := hs.overrides position p hp
    obtain ⟨a, ha⟩ := hsound.selects o (List.mem_of_getElem? hi)
    obtain ⟨b, hb⟩ := hsound.selects o' (List.mem_of_getElem? hj)
    rw [overrideSelects_iff h hauthored, ha, List.mem_singleton] at he
    rw [overrideSelects_iff h hauthored', hb, List.mem_singleton] at he'
    obtain ⟨hi', rfl⟩ := List.getElem?_eq_some_iff.1 hi
    obtain ⟨hj', rfl⟩ := List.getElem?_eq_some_iff.1 hj
    exact hsound.index_eq hi' hj' (by rw [ha, hb, ← he, ← he'])
  · intro key i default override ho hplacement
    obtain ⟨position, p, o, -, hp, hi, rfl, hauthored⟩ := override_of_overrideAt h ho
    refine (hs.overrides position p hp).changes o (List.mem_of_getElem? hi) ?_
    exact mode_text_inj.1 (hstr (hauthored.placement.symm.trans hplacement))

/-! ## From a fault to its member -/

/-- A document that keeps the rules breaks none. -/
theorem SemanticRules.not_breaks (h : SemanticRules raw) {code : DeclarationCode}
    {tokens : List String} : ¬ Breaks raw code tokens := by
  intro hb
  cases hb with
  | initialPosition hp hd => exact hd (h.initialPosition _ hp)
  | samePosition hkey ht hfrom hto => exact h.samePosition _ hkey _ _ _ ht hfrom hto rfl
  | positionInPolicy hkey hedge ht hp hd => exact hd (h.positionInPolicy _ hkey _ hedge _ _ ht hp)
  | matchesNone ho hnone =>
    obtain ⟨e, he⟩ := h.matchesSome _ _ _ _ ho
    exact hnone e he
  | ambiguous ho he he' hne => exact hne (h.matchesOne _ _ _ _ ho _ _ he he')
  | duplicate ho ho' hlt he he' =>
    have := h.selectedOnce _ _ _ _ _ _ ho ho' _ he he'
    omega
  | redundant ho hp => exact h.notRedundant _ _ _ _ ho hp

/-- The tokens of an override's member lead to it. -/
theorem OverrideAt.follow {position key : String} {i : ℕ} {default override w : Value String}
    (h : OverrideAt raw position i default override) (hw : override.member key = some w) :
    JsonPointer.follow raw ["position_policy", position, "overrides", i.repr, key] = some w := by
  obtain ⟨policy, placement, l, hpolicy, hplacement, -, hl, hi⟩ := h
  rw [JsonPointer.follow_member hpolicy, JsonPointer.follow_member hplacement,
    JsonPointer.follow_member hl, JsonPointer.follow_cons, JsonPointer.step_list, hi]
  exact JsonPointer.follow_member hw []

/-- An override of the declaration that breaks a rule does so in the document. -/
theorem override_breaks (h : d.AuthoredIn raw) {position : AutonomyPosition} {p : PaaPlacement}
    (hp : d.positionPolicy.placement? position = some p) {i : ℕ} {o : PaaPlacementOverride}
    (hi : p.overrides[i]? = some o) {code : DeclarationCode} {key : String}
    (hf : OverrideFault d.evaluators p i o code key) :
    Breaks raw code ["position_policy", position.text, "overrides", i.repr, key] ∧
      ∃ w, JsonPointer.follow raw
        ["position_policy", position.text, "overrides", i.repr, key] = some w := by
  obtain ⟨override, ho, hauthored⟩ := overrideAt_of_override h hp hi
  have hselects := @overrideSelects_iff raw d h o override hauthored
  obtain ⟨s, hs, -⟩ := hauthored.selector
  cases hf with
  | matchesNone hnone =>
    refine ⟨.matchesNone ho fun e he => ?_, s, ho.follow hs⟩
    rw [hselects, hnone] at he
    cases he
  | ambiguous hlen =>
    refine ⟨?_, s, ho.follow hs⟩
    have hnodup := @matchingEvaluators_nodup o.selector d.evaluators
    match hm : matchingEvaluators o.selector d.evaluators with
    | [] | [_] => simp [hm] at hlen
    | e :: e₁ :: _ =>
      rw [hm] at hnodup hselects
      have he : OverrideSelects raw override e := hselects.2 (by simp)
      have he₁ : OverrideSelects raw override e₁ := hselects.2 (by simp)
      refine .ambiguous ho he he₁ ?_
      rintro rfl
      simp at hnodup
  | duplicate hj hlt hm hm' =>
    obtain ⟨override', ho', hauthored'⟩ := overrideAt_of_override h hp hj
    refine ⟨.duplicate ho ho' hlt (hselects.2 (hm ▸ List.mem_singleton_self _)) ?_, s,
      ho.follow hs⟩
    exact (overrideSelects_iff h hauthored').2 (hm' ▸ List.mem_singleton_self _)
  | redundant hmode =>
    refine ⟨.redundant ho ?_, _, ho.follow hauthored.placement⟩
    rw [hauthored.placement, hmode]

/-- A fault of the declaration is a broken rule of the document, at a member that is there. -/
theorem fault_breaks (h : d.AuthoredIn raw) {code : DeclarationCode} {tokens : List String}
    (hf : d.Fault code tokens) :
    Breaks raw code tokens ∧ ∃ w, JsonPointer.follow raw tokens = some w := by
  have hdeclared : ∀ {position}, d.positionPolicy.declares position = false →
      ¬ Declared raw position.text := by
    intro position hp hd
    rw [declared_text h, hp] at hd
    cases hd
  obtain ⟨t, ht, hpromotion⟩ := h.promotion
  obtain ⟨t', ht', hdemotion⟩ := h.demotion
  have hfollow := JsonPointer.follow_member ht
  have hfollow' := JsonPointer.follow_member ht'
  cases hf with
  | initialPosition hf =>
    exact ⟨.initialPosition h.initialPosition (hdeclared hf), _,
      JsonPointer.follow_member h.initialPosition []⟩
  | promotionSame hf =>
    exact ⟨.samePosition (by simp) ht hpromotion.fromPosition (hf ▸ hpromotion.toPosition), t,
      hfollow []⟩
  | promotionFrom hf =>
    exact ⟨.positionInPolicy (by simp) (by simp) ht hpromotion.fromPosition (hdeclared hf), _,
      (hfollow _).trans (JsonPointer.follow_member hpromotion.fromPosition [])⟩
  | promotionTo hf =>
    exact ⟨.positionInPolicy (by simp) (by simp) ht hpromotion.toPosition (hdeclared hf), _,
      (hfollow _).trans (JsonPointer.follow_member hpromotion.toPosition [])⟩
  | demotionSame hf =>
    exact ⟨.samePosition (by simp) ht' hdemotion.fromPosition (hf ▸ hdemotion.toPosition), t',
      hfollow' []⟩
  | demotionFrom hf =>
    exact ⟨.positionInPolicy (by simp) (by simp) ht' hdemotion.fromPosition (hdeclared hf), _,
      (hfollow' _).trans (JsonPointer.follow_member hdemotion.fromPosition [])⟩
  | demotionTo hf =>
    exact ⟨.positionInPolicy (by simp) (by simp) ht' hdemotion.toPosition (hdeclared hf), _,
      (hfollow' _).trans (JsonPointer.follow_member hdemotion.toPosition [])⟩
  | override hp hi hf => exact override_breaks h hp hi hf

/-- The loader decides the published rules on documents of the published shape. A refusal names a
rule and a member of the document at which the document breaks it; a success is what the document
authors. -/
theorem buildDeclaration_decides {path : String} {registry : List ProducerRegistration}
    (hschema : taskSchema raw = true) (hintegers : IntegersAuthored raw)
    (hregistry : ∀ l v e, raw.member "evaluators" = some (.list l) → v ∈ l →
      PaaEvaluator.AuthoredIn v e → Registered registry e) :
    ((∃ d, buildDeclaration raw path registry = .ok d) ↔ SemanticRules raw) ∧
      (∀ e, buildDeclaration raw path registry = .error e →
        ∃ message code tokens w, e = .paaDeclarationError
            ⟨message, some code, some (JsonPointer.format tokens)⟩ ∧
          JsonPointer.resolve raw (JsonPointer.format tokens) = some w ∧ Breaks raw code tokens) ∧
      ∀ d, buildDeclaration raw path registry = .ok d → d.AuthoredIn raw := by
  obtain ⟨d, hd⟩ := taskSchema_valid hschema hintegers
  have hregistered : ∀ e ∈ d.evaluators, Registered registry e := by
    intro e he
    obtain ⟨l, hl, -, hall⟩ := hd.evaluators
    obtain ⟨i, hi⟩ := List.mem_iff_getElem?.1 he
    obtain ⟨v, hv, hev⟩ := forall₂_getElem?_right hall hi
    exact hregistry l v e hl (List.mem_of_getElem? hv) hev
  have hbuild : buildDeclaration raw path registry =
      (validateSemantics d path).bind fun _ => .ok d := by
    rw [buildDeclaration, buildFields_ok.2 ⟨hd, hregistered⟩]
    rfl
  rw [hbuild]
  cases hv : validateSemantics d path with
  | ok u =>
    have hrules := semanticRules_of_sound hd (validateSemantics_ok hv)
    refine ⟨iff_of_true ⟨d, rfl⟩ hrules, fun e he => (nomatch he), fun d' hd' => ?_⟩
    obtain rfl := Except.ok.inj hd'
    exact hd
  | error e =>
    obtain ⟨code, tokens, hf, message, rfl⟩ := validateSemantics_error hv
    obtain ⟨hbreaks, w, hw⟩ := fault_breaks hd hf
    refine ⟨iff_of_false (fun ⟨_, h⟩ => nomatch h) fun h => h.not_breaks hbreaks, fun e he => ?_,
      fun _ h => nomatch h⟩
    obtain rfl := Except.error.inj he
    exact ⟨_, code, tokens, w, rfl, (JsonPointer.resolve_format raw tokens).trans hw, hbreaks⟩

/-- The registry of the sample registers what an evaluator of the sample authors. -/
theorem Sample.registered {version : String} (hversion : version ∈ ["1", "2"]) {e : PaaEvaluator}
    (h : e.AuthoredIn (Sample.evaluator version)) : Registered Sample.registry e := by
  have hstr : ∀ {a b : String}, some (Value.str a) = some (Value.str b) → a = b := by simp
  obtain ⟨b, hb, hbasis⟩ := h.evaluationBasis
  obtain rfl := Option.some.inj hb
  obtain ⟨property, target, technique, ⟨kind, ref⟩, status, v, authority⟩ := e
  obtain rfl := hstr h.property.1
  obtain rfl := hstr h.target.1
  obtain rfl := hstr h.technique.1
  obtain rfl := hstr hbasis.kind.1
  obtain rfl := hstr hbasis.ref.1
  obtain rfl := hstr h.epistemicStatus.1
  obtain rfl := hstr h.version.1
  obtain rfl := hstr h.authority.1
  exact ⟨_, List.mem_map_of_mem hversion, rfl⟩

set_option maxRecDepth 10000 in
/-- The sample keeps the published rules. -/
theorem buildDeclaration_decides_sample : SemanticRules Sample.document := by
  refine (@buildDeclaration_decides Sample.document "triage.yaml" Sample.registry
    (by decide +kernel) ⟨fun f h => ?_, ?_⟩ ?_).1.1 ⟨_, Sample.document_built⟩
  · cases h
  · intro key hkey t w f ht hw hsize
    obtain rfl | rfl : key = "promotion" ∨ key = "demotion" := by simpa using hkey
    · cases ht
      cases hw
      cases hsize
    · cases ht
      cases hw
      cases hsize
  · intro l v e hl hv he
    cases hl
    obtain rfl | rfl : v = Sample.evaluator "1" ∨ v = Sample.evaluator "2" := by simpa using hv
    · exact Sample.registered (by simp) he
    · exact Sample.registered (by simp) he

end

end PaaRuntime
