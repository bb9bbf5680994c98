import PaaRuntime.LoaderSpec
import PaaRuntime.Lib.JsonPointer

/-!
# The cross-field rules of a declaration

What `_validate_semantics` enforces, as a property of the declaration (`Sound`), and where it is
broken when a rule fails (`Fault`). An accepted declaration gives each evaluator one placement: at
most one override matches any evaluator (`placement_lookup`).
-/

namespace PaaRuntime

/-! ## Selectors and evaluators -/

section

variable {s : PaaEvaluatorSelector} {evaluators : List PaaEvaluator} {e : PaaEvaluator} {i j : ℕ}

theorem matches_iff : s.matches e = true ↔ e.property = s.property ∧ e.technique = s.technique ∧
    ∀ v ∈ s.version, e.version = v := by
  cases h : s.version <;> simp [PaaEvaluatorSelector.matches, h, and_assoc]

theorem mem_matchingEvaluators :
    i ∈ matchingEvaluators s evaluators ↔ ∃ e, evaluators[i]? = some e ∧ s.matches e = true := by
  simp [matchingEvaluators, List.mem_zipIdx_iff_getElem?]

theorem matchingEvaluators_nodup : (matchingEvaluators s evaluators).Nodup := by
  have hsub := List.filter_sublist (l := evaluators.zipIdx) (p := (s.matches ·.1))
  refine (hsub.map Prod.snd).nodup ?_
  rw [List.zipIdx_map_snd]
  exact List.nodup_range'

/-- A selector that matches one evaluator selects exactly its index. -/
theorem matches_iff_of_single (h : matchingEvaluators s evaluators = [i])
    (he : evaluators[j]? = some e) : s.matches e = true ↔ j = i := by
  have hi : j ∈ matchingEvaluators s evaluators ↔ j = i := by rw [h, List.mem_singleton]
  rw [← hi, mem_matchingEvaluators]
  exact ⟨fun hm => ⟨e, he, hm⟩, fun ⟨e', he', hm⟩ => Option.some.inj (he.symm.trans he') ▸ hm⟩

/-- Two selectors of different evaluators match no evaluator in common, declared or not. -/
theorem not_matches_both {s' : PaaEvaluatorSelector} (h : matchingEvaluators s evaluators = [i])
    (h' : matchingEvaluators s' evaluators = [j]) (hne : i ≠ j) :
    ¬ (s.matches e = true ∧ s'.matches e = true) := by
  rintro ⟨hm, hm'⟩
  obtain ⟨a, ha, hai⟩ := mem_matchingEvaluators.1 (h ▸ List.mem_singleton_self i)
  obtain ⟨b, hb, hbj⟩ := mem_matchingEvaluators.1 (h' ▸ List.mem_singleton_self j)
  obtain ⟨hp, ht, hv⟩ := matches_iff.1 hm
  obtain ⟨hp', ht', hv'⟩ := matches_iff.1 hm'
  obtain ⟨hpa, hta, hva⟩ := matches_iff.1 hai
  obtain ⟨hpb, htb, hvb⟩ := matches_iff.1 hbj
  -- one of the two selectors also matches the evaluator of the other
  cases hs : s.version with
  | none =>
    refine hne ((matches_iff_of_single h hb).1 (matches_iff.2 ⟨?_, ?_, by simp [hs]⟩)).symm
    · rw [hpb, ← hp', hp]
    · rw [htb, ← ht', ht]
  | some v =>
    refine hne ((matches_iff_of_single h' ha).1 (matches_iff.2 ⟨?_, ?_, fun w hw => ?_⟩))
    · rw [hpa, ← hp, hp']
    · rw [hta, ← ht, ht']
    · rw [hva v hs, ← hv v hs]
      exact hv' w hw

end

/-! ## Rules and faults -/

/-- Each override selects one evaluator, each its own, and changes the default. -/
structure OverridesSound (evaluators : List PaaEvaluator) (p : PaaPlacement) : Prop where
  selects : ∀ o ∈ p.overrides, ∃ i, matchingEvaluators o.selector evaluators = [i]
  once : p.overrides.Pairwise fun o o' =>
    matchingEvaluators o.selector evaluators ≠ matchingEvaluators o'.selector evaluators
  changes : ∀ o ∈ p.overrides, o.placement ≠ p.default

/-- The declaration keeps the published cross-field rules. -/
structure PaaTaskDeclaration.Sound (d : PaaTaskDeclaration) : Prop where
  initialPosition : d.positionPolicy.declares d.initialPosition = true
  promotion : d.promotion.fromPosition ≠ d.promotion.toPosition ∧
    d.positionPolicy.declares d.promotion.fromPosition = true ∧
    d.positionPolicy.declares d.promotion.toPosition = true
  demotion : d.demotion.fromPosition ≠ d.demotion.toPosition ∧
    d.positionPolicy.declares d.demotion.fromPosition = true ∧
    d.positionPolicy.declares d.demotion.toPosition = true
  overrides : ∀ position p, d.positionPolicy.placement? position = some p →
    OverridesSound d.evaluators p

/-- An override breaks a rule, at one of its members. -/
inductive OverrideFault (evaluators : List PaaEvaluator) (p : PaaPlacement) (i : ℕ)
    (o : PaaPlacementOverride) : DeclarationCode → String → Prop
  | matchesNone (h : matchingEvaluators o.selector evaluators = []) :
      OverrideFault evaluators p i o .overrideMatchesNoEvaluator "selector"
  | ambiguous (h : 2 ≤ (matchingEvaluators o.selector evaluators).length) :
      OverrideFault evaluators p i o .overrideAmbiguous "selector"
  | duplicate {j e : ℕ} {o' : PaaPlacementOverride} (hj : p.overrides[j]? = some o') (hlt : j < i)
      (h : matchingEvaluators o.selector evaluators = [e])
      (h' : matchingEvaluators o'.selector evaluators = [e]) :
      OverrideFault evaluators p i o .overrideDuplicate "selector"
  | redundant (h : o.placement = p.default) :
      OverrideFault evaluators p i o .overrideRedundant "placement"

/-- The declaration breaks a rule, at the member some tokens lead to. -/
inductive PaaTaskDeclaration.Fault (d : PaaTaskDeclaration) : DeclarationCode → List String → Prop
  | initialPosition (h : d.positionPolicy.declares d.initialPosition = false) :
      d.Fault .initialPositionNotInPolicy ["initial_position"]
  | promotionSame (h : d.promotion.fromPosition = d.promotion.toPosition) :
      d.Fault .transitionSamePosition ["promotion"]
  | promotionFrom (h : d.positionPolicy.declares d.promotion.fromPosition = false) :
      d.Fault .transitionPositionNotInPolicy ["promotion", "from"]
  | promotionTo (h : d.positionPolicy.declares d.promotion.toPosition = false) :
      d.Fault .transitionPositionNotInPolicy ["promotion", "to"]
  | demotionSame (h : d.demotion.fromPosition = d.demotion.toPosition) :
      d.Fault .transitionSamePosition ["demotion"]
  | demotionFrom (h : d.positionPolicy.declares d.demotion.fromPosition = false) :
      d.Fault .transitionPositionNotInPolicy ["demotion", "from"]
  | demotionTo (h : d.positionPolicy.declares d.demotion.toPosition = false) :
      d.Fault .transitionPositionNotInPolicy ["demotion", "to"]
  | override {position : AutonomyPosition} {p : PaaPlacement} {i : ℕ} {o : PaaPlacementOverride}
      {code : DeclarationCode} {key : String} (hp : d.positionPolicy.placement? position = some p)
      (hi : p.overrides[i]? = some o) (h : OverrideFault d.evaluators p i o code key) :
      d.Fault code ["position_policy", position.text, "overrides", i.repr, key]

/-! ## Validating overrides -/

section

variable {evaluators : List PaaEvaluator} {path : String} {position : AutonomyPosition}
  {default : PositionPolicyMode} {done overrides : List PaaPlacementOverride}
  {o : PaaPlacementOverride} {claimed : List (ℕ × ℕ)} {e : BuildError} {i : ℕ}

/-- The table of claims holds, by evaluator, the index of the override that selects it. -/
structure Claims (evaluators : List PaaEvaluator) (done : List PaaPlacementOverride)
    (claimed : List (ℕ × ℕ)) : Prop where
  found : ∀ i c, claimed.lookup i = some c →
    ∃ o, done[c]? = some o ∧ matchingEvaluators o.selector evaluators = [i]
  missing : ∀ i, claimed.lookup i = none →
    ∀ o ∈ done, matchingEvaluators o.selector evaluators ≠ [i]

theorem Claims.nil : Claims evaluators [] [] := ⟨fun _ _ h => (nomatch h), fun _ _ _ h => (nomatch h)⟩

theorem Claims.concat (h : Claims evaluators done claimed)
    (ho : matchingEvaluators o.selector evaluators = [i]) :
    Claims evaluators (done ++ [o]) ((i, done.length) :: claimed) := by
  constructor
  · intro j c hc
    rw [List.lookup_cons] at hc
    split at hc
    · rename_i hj
      obtain rfl := beq_iff_eq.1 hj
      cases hc
      exact ⟨o, by simp, ho⟩
    · obtain ⟨o', ho', hm⟩ := h.found j c hc
      exact ⟨o', List.getElem?_append_left (List.getElem?_eq_some_iff.1 ho').1 ▸ ho', hm⟩
  · intro j hj o' ho'
    rw [List.lookup_cons] at hj
    split at hj
    · cases hj
    · rename_i hne
      rcases List.mem_append.1 ho' with ho' | ho'
      · exact h.missing j hj o' ho'
      · rw [List.mem_singleton.1 ho', ho]
        intro heq
        rw [List.cons.inj heq |>.1] at hne
        simp at hne

theorem Claims.lt (h : Claims evaluators done claimed) {c : ℕ} (hc : claimed.lookup i = some c) :
    c < done.length := by
  obtain ⟨o, ho, -⟩ := h.found i c hc
  exact (List.getElem?_eq_some_iff.1 ho).1

theorem plain_position (position : AutonomyPosition) : JsonPointer.Plain position.text := by
  cases position <;> decide

/-- The pointer of a member of an override. -/
theorem override_pointer (position : AutonomyPosition) (i : ℕ) (key : String)
    (hkey : JsonPointer.Plain key) :
    JsonPointer.format ["position_policy", position.text, "overrides", i.repr, key] =
      "/position_policy/" ++ position.text ++ "/overrides/" ++ i.repr ++ ("/" ++ key) := by
  have h₁ : "/position_policy/" = "/" ++ "position_policy" ++ "/" := by decide +kernel
  have h₂ : "/overrides/" = "/" ++ "overrides" ++ "/" := by decide +kernel
  rw [JsonPointer.format_cons (by decide +kernel), JsonPointer.format_cons (plain_position position),
    JsonPointer.format_cons (by decide +kernel), JsonPointer.format_cons (JsonPointer.plain_repr i),
    JsonPointer.format_cons hkey, h₁, h₂]
  simp only [JsonPointer.format_nil, String.append_assoc, String.append_empty]

/-- The exception of a rule that fails at some tokens. -/
def RuleError (e : BuildError) (code : DeclarationCode) (tokens : List String) : Prop :=
  ∃ message, e = .paaDeclarationError
    ⟨[.text message], some code, some (JsonPointer.format tokens)⟩

/-- One override passes, or is refused for a rule that it breaks. -/
theorem validateOverrides_cons (hc : Claims evaluators done claimed) :
    (∃ i, matchingEvaluators o.selector evaluators = [i] ∧ claimed.lookup i = none ∧
      o.placement ≠ default ∧
      validateOverrides evaluators path position default claimed done.length (o :: overrides) =
        validateOverrides evaluators path position default ((i, done.length) :: claimed)
          (done.length + 1) overrides) ∨
    ∃ e code key,
      validateOverrides evaluators path position default claimed done.length (o :: overrides) =
        .error e ∧
      OverrideFault evaluators ⟨default, done ++ o :: overrides⟩ done.length o code key ∧
      RuleError e code ["position_policy", position.text, "overrides", done.length.repr, key] := by
  have hselector := override_pointer position done.length "selector" (by decide +kernel)
  have hplacement := override_pointer position done.length "placement" (by decide +kernel)
  simp only [validateOverrides]
  split
  · rename_i ho
    exact .inr ⟨_, _, _, rfl, .matchesNone ho, _, by rw [hselector]; rfl⟩
  · rename_i i ho
    cases hl : claimed.lookup i with
    | some c =>
      obtain ⟨o', ho', hm⟩ := hc.found i c hl
      have hlt := hc.lt hl
      rw [Option.getD_some, if_pos (by omega)]
      refine .inr ⟨_, _, _, rfl, .duplicate ?_ hlt ho hm, _, by rw [hselector]; rfl⟩
      rw [List.getElem?_append_left hlt]
      exact ho'
    | none =>
      rw [Option.getD_none, if_neg (by simp)]
      split_ifs with hmode
      · exact .inr ⟨_, _, _, rfl, .redundant hmode, _, by rw [hplacement]; rfl⟩
      · exact .inl ⟨i, ho, hl, hmode, rfl⟩
  · rename_i hnil hsingle
    refine .inr ⟨_, _, _, rfl, .ambiguous ?_, _, by rw [hselector]; rfl⟩
    match hm : matchingEvaluators o.selector evaluators with
    | [] => exact absurd hm hnil
    | [i] => exact absurd hm (hsingle i)
    | _ :: _ :: _ => simp

/-- Overrides that pass keep the rules. -/
theorem validateOverrides_ok {u : Unit} (hc : Claims evaluators done claimed)
    (hdone : OverridesSound evaluators ⟨default, done⟩)
    (h : validateOverrides evaluators path position default claimed done.length overrides = .ok u) :
    OverridesSound evaluators ⟨default, done ++ overrides⟩ := by
  induction overrides generalizing done claimed with
  | nil => rwa [List.append_nil]
  | cons o overrides ih =>
    rcases validateOverrides_cons hc with ⟨i, ho, hnone, hmode, heq⟩ | ⟨e, code, key, heq, -⟩
    · rw [heq] at h
      rw [← List.singleton_append, ← List.append_assoc]
      refine ih (hc.concat ho) ⟨?_, ?_, ?_⟩ (by simpa using h)
      · simpa [or_imp, forall_and] using ⟨hdone.selects, i, ho⟩
      · refine List.pairwise_append.2 ⟨hdone.once, List.pairwise_singleton _ o, ?_⟩
        intro o' ho' a ha
        rw [List.mem_singleton.1 ha, ho]
        exact hc.missing i hnone o' ho'
      · simpa [or_imp, forall_and] using ⟨hdone.changes, hmode⟩
    · rw [heq] at h
      cases h

/-- Overrides that are refused break the rule that the exception names, at its pointer. -/
theorem validateOverrides_error (hc : Claims evaluators done claimed)
    (h : validateOverrides evaluators path position default claimed done.length overrides =
      .error e) :
    ∃ i o code key, (done ++ overrides)[i]? = some o ∧
      OverrideFault evaluators ⟨default, done ++ overrides⟩ i o code key ∧
      RuleError e code ["position_policy", position.text, "overrides", i.repr, key] := by
  induction overrides generalizing done claimed with
  | nil => cases h
  | cons o overrides ih =>
    rcases validateOverrides_cons hc with ⟨i, ho, -, -, heq⟩ | ⟨e', code, key, heq, hfault, hr⟩
    · rw [heq] at h
      have h' := ih (hc.concat ho) (by simpa using h)
      rwa [List.append_assoc, List.singleton_append] at h'
    · rw [heq] at h
      cases h
      exact ⟨done.length, o, code, key, by simp, hfault, hr⟩

/-- Where the rules are kept, no override breaks one. -/
theorem OverridesSound.no_fault {p : PaaPlacement} {code : DeclarationCode} {key : String}
    (h : OverridesSound evaluators p) (hi : p.overrides[i]? = some o) :
    ¬ OverrideFault evaluators p i o code key := by
  have ho := List.mem_of_getElem? hi
  obtain ⟨j, hj⟩ := h.selects o ho
  intro hf
  cases hf with
  | matchesNone hnone => simp [hnone] at hj
  | ambiguous hlen => simp [hj] at hlen
  | duplicate hj hlt hm hm' =>
    obtain ⟨hi', hio⟩ := List.getElem?_eq_some_iff.1 hi
    obtain ⟨hj', hjo⟩ := List.getElem?_eq_some_iff.1 hj
    have hne := List.pairwise_iff_getElem.1 h.once _ _ hj' hi' hlt
    rw [hio, hjo, hm, hm'] at hne
    exact hne rfl
  | redundant hmode => exact h.changes o ho hmode

end

/-! ## Validating a declaration -/

section

variable {d : PaaTaskDeclaration} {path : String} {e : BuildError} {u : Unit}

theorem mem_positionsInOrder (p : AutonomyPosition) : p ∈ positionsInOrder := by
  cases p <;> decide

@[simp] theorem mem_declaredPositions {policy : PaaPositionPolicy} {p : AutonomyPosition} :
    p ∈ policy.declaredPositions ↔ policy.declares p = true := by
  rw [PaaPositionPolicy.declaredPositions, List.mem_filter]
  exact and_iff_right (mem_positionsInOrder p)

theorem placement_ok {policy : PaaPositionPolicy} {position : AutonomyPosition}
    {p : PaaPlacement} : policy.placement position = .ok p ↔ policy.placement? position = some p := by
  unfold PaaPositionPolicy.placement
  split <;> simp_all

theorem validatePlacementOverrides_ok {positions : List AutonomyPosition}
    (h : validatePlacementOverrides d path positions = .ok u) :
    ∀ position ∈ positions, ∀ p, d.positionPolicy.placement? position = some p →
      OverridesSound d.evaluators p := by
  induction positions with
  | nil => exact fun _ hp => nomatch hp
  | cons position positions ih =>
    obtain ⟨p', hp', h⟩ := except_bind_ok.1 h
    obtain ⟨_, h₁, h₂⟩ := except_bind_ok.1 h
    refine List.forall_mem_cons.2 ⟨fun p hp => ?_, ih h₂⟩
    obtain rfl := Option.some.inj ((placement_ok.1 hp').symm.trans hp)
    exact validateOverrides_ok .nil ⟨by simp, .nil, by simp⟩ h₁

theorem validatePlacementOverrides_error {positions : List AutonomyPosition}
    (hdeclared : ∀ p ∈ positions, d.positionPolicy.declares p = true)
    (h : validatePlacementOverrides d path positions = .error e) :
    ∃ code tokens, d.Fault code tokens ∧ RuleError e code tokens := by
  induction positions with
  | nil => cases h
  | cons position positions ih =>
    obtain ⟨hposition, hpositions⟩ := List.forall_mem_cons.1 hdeclared
    obtain ⟨p, hp⟩ := Option.isSome_iff_exists.1 hposition
    rw [validatePlacementOverrides, placement_ok.2 hp] at h
    rcases except_bind_error.1 h with h | ⟨_, h', h⟩
    · cases h
    · cases h'
      rcases except_bind_error.1 h with h | ⟨_, -, h⟩
      · obtain ⟨i, o, code, key, hi, hf, hr⟩ := validateOverrides_error .nil h
        exact ⟨code, _, .override hp hi hf, hr⟩
      · exact ih hpositions h

theorem validateTransition_ok {policy : PaaPositionPolicy} {name : String}
    {fromPosition toPosition : AutonomyPosition}
    (h : validateTransition policy path name fromPosition toPosition = .ok u) :
    fromPosition ≠ toPosition ∧ policy.declares fromPosition = true ∧
      policy.declares toPosition = true := by
  unfold validateTransition refuseRule at h
  split_ifs at h with hne hfrom hto
  exact ⟨hne, by simpa using hfrom, by simpa using hto⟩

/-- A transition that is refused stays where it is, or uses a position that is not declared. -/
theorem validateTransition_error {policy : PaaPositionPolicy} {name : String}
    (hname : JsonPointer.Plain name) {fromPosition toPosition : AutonomyPosition}
    (h : validateTransition policy path name fromPosition toPosition = .error e) :
    (fromPosition = toPosition ∧ RuleError e .transitionSamePosition [name]) ∨
    (policy.declares fromPosition = false ∧
      RuleError e .transitionPositionNotInPolicy [name, "from"]) ∨
    (policy.declares toPosition = false ∧
      RuleError e .transitionPositionNotInPolicy [name, "to"]) := by
  have hpointer : ∀ edge, JsonPointer.Plain edge →
      JsonPointer.format [name, edge] = "/" ++ name ++ "/" ++ edge := by
    intro edge hedge
    rw [JsonPointer.format_cons hname, JsonPointer.format_cons hedge]
    simp only [JsonPointer.format_nil, String.append_empty, String.append_assoc]
  unfold validateTransition refuseRule at h
  split_ifs at h with hne hfrom hto
  · cases h
    exact .inl ⟨hne, _, by
      rw [JsonPointer.format_cons hname, JsonPointer.format_nil, String.append_empty]
      rfl⟩
  · cases h
    exact .inr (.inl ⟨by simpa using hfrom, _, by rw [hpointer "from" (by decide +kernel)]; rfl⟩)
  · cases h
    exact .inr (.inr ⟨by simpa using hto, _, by rw [hpointer "to" (by decide +kernel)]; rfl⟩)

/-- A declaration that passes keeps the rules. -/
theorem validateSemantics_ok (h : validateSemantics d path = .ok u) : d.Sound := by
  unfold validateSemantics refuseRule at h
  dsimp only at h
  split_ifs at h with hinitial
  obtain ⟨_, h₁, h⟩ := except_bind_ok.1 h
  obtain ⟨_, h₂, h₃⟩ := except_bind_ok.1 h
  refine ⟨by simpa using hinitial, validateTransition_ok h₁, validateTransition_ok h₂, ?_⟩
  intro position p hp
  have hdeclared : d.positionPolicy.declares position = true := by
    rw [PaaPositionPolicy.declares, hp]
    rfl
  exact validatePlacementOverrides_ok h₃ position (mem_declaredPositions.2 hdeclared) p hp

/-- A declaration that is refused breaks the rule that the exception names, at its pointer. -/
theorem validateSemantics_error (h : validateSemantics d path = .error e) :
    ∃ code tokens, d.Fault code tokens ∧ RuleError e code tokens := by
  unfold validateSemantics at h
  dsimp only at h
  split_ifs at h with hinitial
  · cases h
    exact ⟨_, _, .initialPosition (by simpa using hinitial), _, by
      rw [JsonPointer.format_cons (by decide +kernel)]
      rfl⟩
  · rcases except_bind_error.1 h with h | ⟨_, -, h⟩
    · rcases validateTransition_error (by decide +kernel) h with ⟨hf, hr⟩ | ⟨hf, hr⟩ | ⟨hf, hr⟩
      · exact ⟨_, _, .promotionSame hf, hr⟩
      · exact ⟨_, _, .promotionFrom hf, hr⟩
      · exact ⟨_, _, .promotionTo hf, hr⟩
    · rcases except_bind_error.1 h with h | ⟨_, -, h⟩
      · rcases validateTransition_error (by decide +kernel) h with ⟨hf, hr⟩ | ⟨hf, hr⟩ | ⟨hf, hr⟩
        · exact ⟨_, _, .demotionSame hf, hr⟩
        · exact ⟨_, _, .demotionFrom hf, hr⟩
        · exact ⟨_, _, .demotionTo hf, hr⟩
      · exact validatePlacementOverrides_error (fun p hp => mem_declaredPositions.1 hp) h

/-- Where the rules are kept, none is broken. -/
theorem PaaTaskDeclaration.Sound.no_fault (h : d.Sound) {code : DeclarationCode}
    {tokens : List String} : ¬ d.Fault code tokens := by
  intro hf
  cases hf with
  | initialPosition hf => simp [h.initialPosition] at hf
  | promotionSame hf => exact h.promotion.1 hf
  | promotionFrom hf => simp [h.promotion.2.1] at hf
  | promotionTo hf => simp [h.promotion.2.2] at hf
  | demotionSame hf => exact h.demotion.1 hf
  | demotionFrom hf => simp [h.demotion.2.1] at hf
  | demotionTo hf => simp [h.demotion.2.2] at hf
  | override hp hi hf => exact (h.overrides _ _ hp).no_fault hi hf

/-- The validation passes exactly where the rules are kept. -/
theorem validateSemantics_iff : validateSemantics d path = .ok () ↔ d.Sound := by
  refine ⟨validateSemantics_ok, fun h => ?_⟩
  rcases except_cases (validateSemantics d path) with ⟨_, hok⟩ | ⟨e, he⟩
  · exact hok
  · obtain ⟨code, tokens, hf, -⟩ := validateSemantics_error he
    exact absurd hf h.no_fault

end

/-! ## Placement lookup -/

section

variable {evaluators : List PaaEvaluator} {p : PaaPlacement} {o o' : PaaPlacementOverride}
  {e : PaaEvaluator}

/-- Overrides that select the same evaluator are one. -/
theorem OverridesSound.index_eq (h : OverridesSound evaluators p) {i j : ℕ}
    (hi : i < p.overrides.length) (hj : j < p.overrides.length)
    (heq : matchingEvaluators p.overrides[i].selector evaluators =
      matchingEvaluators p.overrides[j].selector evaluators) : i = j := by
  rcases Nat.lt_trichotomy i j with hlt | rfl | hlt
  · exact absurd heq (List.pairwise_iff_getElem.1 h.once i j hi hj hlt)
  · rfl
  · exact absurd heq.symm (List.pairwise_iff_getElem.1 h.once j i hj hi hlt)

/-- At most one override matches an evaluator. -/
theorem OverridesSound.unique (h : OverridesSound evaluators p) (ho : o ∈ p.overrides)
    (ho' : o' ∈ p.overrides) (hm : o.selector.matches e = true)
    (hm' : o'.selector.matches e = true) : o = o' := by
  obtain ⟨i, hi⟩ := h.selects o ho
  obtain ⟨j, hj⟩ := h.selects o' ho'
  by_cases hij : i = j
  · subst hij
    obtain ⟨a, ha, rfl⟩ := List.getElem_of_mem ho
    obtain ⟨b, hb, rfl⟩ := List.getElem_of_mem ho'
    obtain rfl := h.index_eq ha hb (hi.trans hj.symm)
    rfl
  · exact absurd ⟨hm, hm'⟩ (not_matches_both hi hj hij)

/-- An override that is the only one to match decides the placement. -/
theorem forEvaluator_of_matches (hunique : ∀ o' ∈ p.overrides, o'.selector.matches e = true → o' = o)
    (ho : o ∈ p.overrides) (hm : o.selector.matches e = true) :
    p.forEvaluator e = o.placement := by
  unfold PaaPlacement.forEvaluator
  cases hf : p.overrides.find? (·.selector.matches e) with
  | none => exact absurd hm (List.find?_eq_none.1 hf o ho)
  | some o' =>
    have hm' : o'.selector.matches e = true := by simpa using List.find?_some hf
    rw [hunique o' (List.mem_of_find?_eq_some hf) hm']

theorem forEvaluator_of_none (h : ∀ o ∈ p.overrides, o.selector.matches e = false) :
    p.forEvaluator e = p.default := by
  unfold PaaPlacement.forEvaluator
  rw [List.find?_eq_none.2 fun o ho => by simp [h o ho]]

/-- The order of the overrides does not count. -/
theorem OverridesSound.forEvaluator_perm (h : OverridesSound evaluators p)
    {overrides : List PaaPlacementOverride} (hp : overrides.Perm p.overrides) (e : PaaEvaluator) :
    PaaPlacement.forEvaluator ⟨p.default, overrides⟩ e = p.forEvaluator e := by
  by_cases hex : ∃ o ∈ p.overrides, o.selector.matches e = true
  · obtain ⟨o, ho, hm⟩ := hex
    have hunique : ∀ o' ∈ p.overrides, o'.selector.matches e = true → o' = o :=
      fun o' ho' hm' => h.unique ho' ho hm' hm
    rw [forEvaluator_of_matches hunique ho hm]
    exact forEvaluator_of_matches (fun o' ho' => hunique o' (hp.subset ho')) (hp.symm.subset ho) hm
  · have hnone : ∀ o ∈ p.overrides, o.selector.matches e = false :=
      fun o ho => by simpa using fun hm => hex ⟨o, ho, hm⟩
    rw [forEvaluator_of_none hnone]
    exact forEvaluator_of_none fun o ho => hnone o (hp.subset ho)

end

/-- An accepted declaration keeps the rules. -/
theorem sound_of_buildDeclaration {raw : Value String} {path : String}
    {registry : List ProducerRegistration} {d : PaaTaskDeclaration}
    (h : buildDeclaration raw path registry = .ok d) : d.Sound := by
  obtain ⟨d', -, h⟩ := except_bind_ok.1 h
  obtain ⟨_, hv, h⟩ := except_bind_ok.1 h
  obtain rfl := except_pure_ok.1 h
  exact validateSemantics_ok hv

/-- Placement lookup on an accepted declaration: each override belongs to one declared evaluator of
its own, whose placement it changes; every other evaluator has the default; the order of the
overrides does not count. -/
theorem placement_lookup {raw : Value String} {path : String}
    {registry : List ProducerRegistration} {d : PaaTaskDeclaration}
    (h : buildDeclaration raw path registry = .ok d) {position : AutonomyPosition}
    {p : PaaPlacement} (hp : d.positionPolicy.placement? position = some p) :
    ∃ index : Fin p.overrides.length → Fin d.evaluators.length, Function.Injective index ∧
      (∀ i j, p.overrides[i].selector.matches d.evaluators[j] = true ↔ j = index i) ∧
      (∀ i, p.forEvaluator d.evaluators[index i] = p.overrides[i].placement ∧
        p.overrides[i].placement ≠ p.default) ∧
      (∀ j, (∀ i, index i ≠ j) → p.forEvaluator d.evaluators[j] = p.default) ∧
      ∀ overrides : List PaaPlacementOverride, overrides.Perm p.overrides → ∀ e,
        PaaPlacement.forEvaluator ⟨p.default, overrides⟩ e = p.forEvaluator e := by
  have hs := (sound_of_buildDeclaration h).overrides position p hp
  have hselect : ∀ i : Fin p.overrides.length, ∃ j : Fin d.evaluators.length,
      matchingEvaluators p.overrides[i].selector d.evaluators = [j.val] := by
    intro i
    obtain ⟨j, hj⟩ := hs.selects p.overrides[i] (List.getElem_mem i.isLt)
    obtain ⟨e, he, -⟩ := mem_matchingEvaluators.1 (hj ▸ List.mem_singleton_self j)
    exact ⟨⟨j, (List.getElem?_eq_some_iff.1 he).1⟩, hj⟩
  choose index hindex using hselect
  have hmatches : ∀ i j, p.overrides[i].selector.matches d.evaluators[j] = true ↔ j = index i := by
    intro i j
    rw [Fin.ext_iff]
    exact matches_iff_of_single (hindex i) (List.getElem?_eq_getElem j.isLt)
  refine ⟨index, ?_, hmatches, fun i => ⟨?_, hs.changes _ (List.getElem_mem i.isLt)⟩, ?_,
    fun overrides hperm => hs.forEvaluator_perm hperm⟩
  · intro i j hij
    have hm : matchingEvaluators p.overrides[i].selector d.evaluators =
        matchingEvaluators p.overrides[j].selector d.evaluators := by rw [hindex i, hindex j, hij]
    exact Fin.ext (hs.index_eq i.isLt j.isLt hm)
  · have hm := (hmatches i (index i)).2 rfl
    exact forEvaluator_of_matches (fun o ho ho' => hs.unique ho (List.getElem_mem i.isLt) ho' hm)
      (List.getElem_mem i.isLt) hm
  · intro j hj
    refine forEvaluator_of_none fun o ho => ?_
    obtain ⟨i, hi, rfl⟩ := List.getElem_of_mem ho
    rw [← Bool.not_eq_true]
    exact fun hm => hj ⟨i, hi⟩ ((hmatches ⟨i, hi⟩ j).1 hm).symm

/-! ## A sample document -/

namespace Sample

def window : Value String := .dict [(.str "kind", .str "cases"), (.str "size", .int 20)]

def evaluator (version : String) : Value String := .dict
  [(.str "property", .str "schema_valid"), (.str "target", .str "output"),
    (.str "technique", .str "deterministic"),
    (.str "evaluation_basis",
      .dict [(.str "kind", .str "invariant"), (.str "ref", .str "schema")]),
    (.str "epistemic_status", .str "ground_truth"), (.str "version", .str version),
    (.str "authority", .str "blocking")]

def selector : Value String := .dict
  [(.str "property", .str "schema_valid"), (.str "technique", .str "deterministic"),
    (.str "version", .str "2")]

def document : Value String := .dict
  [(.str "task", .str "triage"), (.str "version", .int 1), (.str "description", .str "Triage."),
    (.str "boundary", .dict [(.str "input", .str "ticket"), (.str "output", .str "queue")]),
    (.str "initial_position", .str "hitl"), (.str "deployment", .str "active"),
    (.str "evaluators", .list [evaluator "1", evaluator "2"]),
    (.str "position_policy", .dict
      [(.str "hitl", .str "blocking"),
        (.str "hotl", .dict [(.str "default", .str "async"), (.str "overrides", .list
          [.dict [(.str "selector", selector), (.str "placement", .str "blocking")]])])]),
    (.str "promotion", .dict
      [(.str "from", .str "hitl"), (.str "to", .str "hotl"), (.str "report", .str "weekly"),
        (.str "window", window), (.str "execution", .str "operator_approval")]),
    (.str "demotion", .dict
      [(.str "from", .str "hotl"), (.str "to", .str "hitl"), (.str "trigger", .str "incident"),
        (.str "window", window)])]

def builtEvaluator (version : String) : PaaEvaluator :=
  ⟨"schema_valid", "output", "deterministic", ⟨"invariant", "schema"⟩, "ground_truth", version,
    "blocking"⟩

def placement : PaaPlacement := ⟨.async, [⟨⟨"schema_valid", "deterministic", some "2"⟩, .blocking⟩]⟩

def declaration : PaaTaskDeclaration :=
  ⟨"triage", 1, .active, .hitl, [builtEvaluator "1", builtEvaluator "2"],
    ⟨[(.hitl, ⟨.blocking, []⟩), (.hotl, placement)]⟩,
    ⟨.hitl, .hotl, "weekly", .cases 20, .operatorApproval⟩, ⟨.hotl, .hitl, "incident", .cases 20⟩,
    none⟩

def registry : List ProducerRegistration := ["1", "2"].map fun version =>
  ⟨"schema_valid", "output", "deterministic", ⟨"invariant", "schema"⟩, "ground_truth", version,
    "blocking"⟩

set_option maxRecDepth 10000 in
theorem document_built :
    buildDeclaration document "triage.yaml" registry = .ok declaration := by
  have h : (buildDeclaration document "triage.yaml" registry).toOption = some declaration := by
    decide +kernel
  cases hb : buildDeclaration document "triage.yaml" registry with
  | error e =>
    rw [hb] at h
    cases h
  | ok d =>
    rw [hb] at h
    rw [Option.some.inj h]

end Sample

/-- The sample's override selects the second version, and the first one has the default. -/
theorem placement_lookup_sample : ∃ index : Fin 1 → Fin 2,
    (∀ i j, Sample.placement.overrides[i].selector.matches Sample.declaration.evaluators[j] = true ↔
      j = index i) ∧
    ∀ j, (∀ i, index i ≠ j) →
      Sample.placement.forEvaluator Sample.declaration.evaluators[j] = .async := by
  obtain ⟨index, -, hm, -, hdefault, -⟩ :=
    @placement_lookup _ _ _ _ Sample.document_built .hotl Sample.placement (by decide)
  exact ⟨index, hm, hdefault⟩

end PaaRuntime
