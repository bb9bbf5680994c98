import PaaRuntime.TaskDocument

/-!
# Documents of the published shape

A document that the published schema accepts authors a declaration, part by part: the builders have
nothing to refuse in it.
-/

namespace PaaRuntime

namespace TaskSchema

open Schema

variable {v : Value String}

theorem text_valid (h : text v = true) : ∃ s, v = .str s ∧ s ≠ "" := by
  rw [text, allOf_iff] at h
  obtain ⟨s, rfl⟩ := type_string_iff.1 (h _ (by simp))
  have hlen : 1 ≤ s.length := minLength_str.1 (h _ (by simp))
  refine ⟨s, rfl, ?_⟩
  rintro rfl
  simp at hlen

theorem oneOfTexts_valid {texts : List String} (h : oneOfTexts texts v = true) :
    ∃ s ∈ texts, v = .str s := by
  rw [oneOfTexts, allOf_iff] at h
  exact enum_iff.1 (h _ (by simp))

theorem autonomyPosition_valid (h : autonomyPosition v = true) :
    ∃ p : AutonomyPosition, v = .str p.text := by
  obtain ⟨s, hs, rfl⟩ := oneOfTexts_valid h
  simp only [List.mem_cons, List.not_mem_nil, or_false] at hs
  rcases hs with rfl | rfl | rfl | rfl
  exacts [⟨.manual, rfl⟩, ⟨.hitl, rfl⟩, ⟨.hotl, rfl⟩, ⟨.autonomous, rfl⟩]

theorem deployment_valid (h : deployment v = true) : ∃ d : Deployment, v = .str d.text := by
  obtain ⟨s, hs, rfl⟩ := oneOfTexts_valid h
  simp only [List.mem_cons, List.not_mem_nil, or_false] at hs
  rcases hs with rfl | rfl | rfl
  exacts [⟨.active, rfl⟩, ⟨.shadow, rfl⟩, ⟨.disabled, rfl⟩]

theorem positionPolicyValue_valid (h : positionPolicyValue v = true) :
    ∃ m : PositionPolicyMode, v = .str m.text := by
  obtain ⟨s, hs, rfl⟩ := oneOfTexts_valid h
  simp only [List.mem_cons, List.not_mem_nil, or_false] at hs
  rcases hs with rfl | rfl | rfl
  exacts [⟨.blocking, rfl⟩, ⟨.async, rfl⟩, ⟨.offline, rfl⟩]

theorem execution_valid (h : oneOfTexts ["operator_approval", "automatic"] v = true) :
    ∃ e : PromotionExecution, v = .str e.text := by
  obtain ⟨s, hs, rfl⟩ := oneOfTexts_valid h
  simp only [List.mem_cons, List.not_mem_nil, or_false] at hs
  rcases hs with rfl | rfl
  exacts [⟨.operatorApproval, rfl⟩, ⟨.automatic, rfl⟩]

/-- One of the texts of a vocabulary is a text that is not empty. -/
theorem oneOfTexts_nonempty {texts : List String} (hne : "" ∉ texts)
    (h : oneOfTexts texts v = true) : ∃ s, v = .str s ∧ s ≠ "" := by
  obtain ⟨s, hs, rfl⟩ := oneOfTexts_valid h
  exact ⟨s, rfl, fun he => hne (he ▸ hs)⟩

/-- An integer from 1 on, given as an integer. -/
theorem positive_valid (h : allOf [type [.integer], minimum 1] v = true)
    (hint : ∀ f, v ≠ .scalar (.float f)) : ∃ i, v = .int i ∧ 1 ≤ i := by
  rw [allOf_iff] at h
  have htype := h _ List.mem_cons_self
  have hmin := h (minimum 1) (by simp)
  rcases v with s | l | m
  · cases s with
    | int i =>
      have hi : ((1 : ℤ) : ℚ) ≤ (i : ℚ) := by simpa [minimum, Scalar.number?] using hmin
      exact ⟨i, rfl, Rat.intCast_le_intCast.1 hi⟩
    | float f => exact absurd rfl (hint f)
    | _ => cases htype
  · cases htype
  · cases htype

theorem window_valid (h : window v = true)
    (hint : ∀ f, v.member "size" ≠ some (.scalar (.float f))) :
    ∃ w : PaaWindow, w.AuthoredIn v := by
  obtain ⟨s, hs, hv⟩ := oneOf_some h
  simp only [List.mem_cons, List.not_mem_nil, or_false] at hs
  rcases hs with rfl | rfl
  · obtain ⟨m, rfl, hreq, -, hprops⟩ := object_valid hv
    obtain ⟨kind, hkind⟩ := hreq "kind" (by simp)
    obtain ⟨size, hsize⟩ := hreq "size" (by simp)
    obtain ⟨t, ht, rfl⟩ := oneOfTexts_valid (hprops 0 kind (by simp) hkind)
    obtain ⟨i, rfl, hpos⟩ := positive_valid (hprops 1 size (by simp) hsize)
      fun f hf => hint f (hf ▸ hsize)
    rw [List.mem_singleton.1 ht] at hkind
    exact ⟨.cases i, hkind, hsize, hpos⟩
  · obtain ⟨m, rfl, hreq, -, hprops⟩ := object_valid hv
    obtain ⟨kind, hkind⟩ := hreq "kind" (by simp)
    obtain ⟨size, hsize⟩ := hreq "size" (by simp)
    obtain ⟨t, ht, rfl⟩ := oneOfTexts_valid (hprops 0 kind (by simp) hkind)
    have hpattern := allOf_iff.1 (hprops 1 size (by simp) hsize)
    obtain ⟨s, rfl⟩ := type_string_iff.1 (hpattern _ List.mem_cons_self)
    have hs : durationPattern s = true := pattern_str.1 (hpattern _ (by simp))
    rw [List.mem_singleton.1 ht] at hkind
    refine ⟨.duration s, hkind, hsize, ?_⟩
    rintro rfl
    cases hs

theorem promotion_valid (h : promotion v = true)
    (hint : ∀ w f, v.member "window" = some w → w.member "size" ≠ some (.scalar (.float f))) :
    ∃ p : PaaPromotion, p.AuthoredIn v := by
  obtain ⟨m, rfl, hreq, -, hprops⟩ := object_valid h
  obtain ⟨_, hfrom⟩ := hreq "from" (by simp)
  obtain ⟨_, hto⟩ := hreq "to" (by simp)
  obtain ⟨_, hreport⟩ := hreq "report" (by simp)
  obtain ⟨w, hw⟩ := hreq "window" (by simp)
  obtain ⟨_, hexec⟩ := hreq "execution" (by simp)
  obtain ⟨p, rfl⟩ := autonomyPosition_valid (hprops 0 _ (by simp) hfrom)
  obtain ⟨q, rfl⟩ := autonomyPosition_valid (hprops 1 _ (by simp) hto)
  obtain ⟨report, rfl, hne⟩ := text_valid (hprops 2 _ (by simp) hreport)
  obtain ⟨window, hwindow⟩ := window_valid
    (hprops 3 _ (by simp) hw) (hint w · hw)
  obtain ⟨e, rfl⟩ := execution_valid (hprops 4 _ (by simp) hexec)
  exact ⟨⟨p, q, report, window, e⟩, hfrom, hto, ⟨hreport, hne⟩, ⟨w, hw, hwindow⟩, hexec⟩

theorem demotion_valid (h : demotion v = true)
    (hint : ∀ w f, v.member "window" = some w → w.member "size" ≠ some (.scalar (.float f))) :
    ∃ d : PaaDemotion, d.AuthoredIn v := by
  obtain ⟨m, rfl, hreq, -, hprops⟩ := object_valid h
  obtain ⟨_, hfrom⟩ := hreq "from" (by simp)
  obtain ⟨_, hto⟩ := hreq "to" (by simp)
  obtain ⟨_, htrigger⟩ := hreq "trigger" (by simp)
  obtain ⟨w, hw⟩ := hreq "window" (by simp)
  obtain ⟨p, rfl⟩ := autonomyPosition_valid (hprops 0 _ (by simp) hfrom)
  obtain ⟨q, rfl⟩ := autonomyPosition_valid (hprops 1 _ (by simp) hto)
  obtain ⟨trigger, rfl, hne⟩ := text_valid (hprops 2 _ (by simp) htrigger)
  obtain ⟨window, hwindow⟩ := window_valid
    (hprops 3 _ (by simp) hw) (hint w · hw)
  exact ⟨⟨p, q, trigger, window⟩, hfrom, hto, ⟨htrigger, hne⟩, w, hw, hwindow⟩

theorem evaluatorSelector_valid (h : evaluatorSelector v = true) :
    ∃ s : PaaEvaluatorSelector, s.AuthoredIn v := by
  obtain ⟨m, rfl, hreq, -, hprops⟩ := object_valid h
  obtain ⟨_, hproperty⟩ := hreq "property" (by simp)
  obtain ⟨_, htechnique⟩ := hreq "technique" (by simp)
  obtain ⟨property, rfl, hp⟩ := text_valid (hprops 0 _ (by simp) hproperty)
  obtain ⟨technique, rfl, ht⟩ :=
    oneOfTexts_nonempty (by decide) (hprops 1 _ (by simp) htechnique)
  cases hv : m.get? "version" with
  | none => exact ⟨⟨property, technique, none⟩, ⟨hproperty, hp⟩, ⟨htechnique, ht⟩, .inl hv⟩
  | some version =>
    obtain ⟨s, rfl, hs⟩ := text_valid (hprops 2 _ (by simp) hv)
    exact ⟨⟨property, technique, some s⟩, ⟨hproperty, hp⟩, ⟨htechnique, ht⟩, hv, hs⟩

theorem override_valid (h : TaskSchema.override v = true) :
    ∃ o : PaaPlacementOverride, o.AuthoredIn v := by
  obtain ⟨m, rfl, hreq, -, hprops⟩ := object_valid h
  obtain ⟨s, hs⟩ := hreq "selector" (by simp)
  obtain ⟨_, hplacement⟩ := hreq "placement" (by simp)
  obtain ⟨selector, hselector⟩ := evaluatorSelector_valid (hprops 0 _ (by simp) hs)
  obtain ⟨mode, rfl⟩ := positionPolicyValue_valid (hprops 1 _ (by simp) hplacement)
  exact ⟨⟨selector, mode⟩, ⟨s, hs, hselector⟩, hplacement⟩

theorem positionPlacement_valid (h : positionPlacement v = true) :
    ∃ p : PaaPlacement, p.AuthoredIn v := by
  obtain ⟨s, hs, hv⟩ := oneOf_some h
  simp only [List.mem_cons, List.not_mem_nil, or_false] at hs
  rcases hs with rfl | rfl
  · obtain ⟨mode, rfl⟩ := positionPolicyValue_valid hv
    exact ⟨⟨mode, []⟩, .inl ⟨rfl, rfl⟩⟩
  · obtain ⟨m, rfl, hreq, -, hprops⟩ := object_valid hv
    obtain ⟨_, hdefault⟩ := hreq "default" (by simp)
    obtain ⟨_, hoverrides⟩ := hreq "overrides" (by simp)
    obtain ⟨mode, rfl⟩ := positionPolicyValue_valid (hprops 0 _ (by simp) hdefault)
    have harray := allOf_iff.1 (hprops 1 _ (by simp) hoverrides)
    obtain ⟨l, rfl⟩ := type_array_iff.1 (harray _ (.head _))
    have hlen : 1 ≤ l.length := minItems_list.1 (harray _ (.tail _ (.head _)))
    have hitems := items_list.1 (harray _ (.tail _ (.tail _ (.head _))))
    obtain ⟨os, hos⟩ := exists_forall₂ fun o ho => override_valid (hitems o ho)
    refine ⟨⟨mode, os⟩, .inr ⟨hdefault, ?_, l, hoverrides, hos⟩⟩
    rintro rfl
    rw [List.forall₂_nil_right_iff.1 hos] at hlen
    simp at hlen

theorem positionPolicy_valid (h : positionPolicy v = true) :
    ∃ p : PaaPositionPolicy, p.AuthoredIn v := by
  rw [positionPolicy, allOf_iff] at h
  obtain ⟨m, rfl⟩ := type_object_iff.1 (h _ (.head _))
  have hmin : 1 ≤ m.length := of_decide_eq_true (h _ (.tail _ (.head _)))
  obtain ⟨-, hnamed, hprops⟩ := members_dict.1 (h _ (.tail _ (.tail _ (.head _))))
  have hplacement : ∀ p ∈ positionsOf m, ∃ e : AutonomyPosition × PaaPlacement,
      p = e.1 ∧ ∃ raw, Members.get? m p.text = some raw ∧ e.2.AuthoredIn raw := by
    intro p hp
    obtain ⟨raw, hraw⟩ := Option.isSome_iff_exists.1 (List.mem_filter.1 hp).2
    have hvalid : positionPlacement raw = true := by
      cases p with
      | manual => exact hprops _ (.head _) raw hraw
      | hitl => exact hprops _ (.tail _ (.head _)) raw hraw
      | hotl => exact hprops _ (.tail _ (.tail _ (.head _))) raw hraw
      | autonomous => exact hprops _ (.tail _ (.tail _ (.tail _ (.head _)))) raw hraw
    obtain ⟨placement, hp⟩ := positionPlacement_valid hvalid
    exact ⟨(p, placement), rfl, raw, hraw, hp⟩
  obtain ⟨placements, hplacements⟩ := exists_forall₂ hplacement
  refine ⟨⟨placements⟩, m, rfl, ?_, fun e he => ?_, hplacements⟩
  · rintro rfl
    simp at hmin
  · obtain ⟨p, hp, hkey⟩ := hnamed e he
    simp only [List.mem_cons, List.not_mem_nil, or_false] at hp
    rcases hp with rfl | rfl | rfl | rfl <;> rw [hkey] <;> rfl

theorem evaluationBasis_valid (h : evaluationBasis v = true) :
    ∃ b : PaaEvaluationBasis, b.AuthoredIn v := by
  obtain ⟨m, rfl, hreq, -, hprops⟩ := object_valid h
  obtain ⟨_, hkind⟩ := hreq "kind" (by simp)
  obtain ⟨_, href⟩ := hreq "ref" (by simp)
  obtain ⟨kind, rfl, hk⟩ := oneOfTexts_nonempty (by decide) (hprops 0 _ (by simp) hkind)
  obtain ⟨ref, rfl, hr⟩ := text_valid (hprops 1 _ (by simp) href)
  exact ⟨⟨kind, ref⟩, ⟨hkind, hk⟩, href, hr⟩

theorem evaluator_valid (h : evaluator v = true) : ∃ e : PaaEvaluator, e.AuthoredIn v := by
  obtain ⟨m, rfl, hreq, -, hprops⟩ := object_valid h
  obtain ⟨_, hproperty⟩ := hreq "property" (by simp)
  obtain ⟨_, htarget⟩ := hreq "target" (by simp)
  obtain ⟨_, htechnique⟩ := hreq "technique" (by simp)
  obtain ⟨b, hb⟩ := hreq "evaluation_basis" (by simp)
  obtain ⟨_, hstatus⟩ := hreq "epistemic_status" (by simp)
  obtain ⟨_, hversion⟩ := hreq "version" (by simp)
  obtain ⟨_, hauthority⟩ := hreq "authority" (by simp)
  obtain ⟨property, rfl, h₁⟩ := text_valid (hprops 0 _ (by simp) hproperty)
  obtain ⟨target, rfl, h₂⟩ :=
    oneOfTexts_nonempty (by decide) (hprops 1 _ (by simp) htarget)
  obtain ⟨technique, rfl, h₃⟩ :=
    oneOfTexts_nonempty (by decide) (hprops 2 _ (by simp) htechnique)
  obtain ⟨basis, hbasis⟩ :=
    evaluationBasis_valid (hprops 3 _ (by simp) hb)
  obtain ⟨status, rfl, h₄⟩ := oneOfTexts_nonempty (by decide) (hprops 4 _ (by simp) hstatus)
  obtain ⟨version, rfl, h₅⟩ := text_valid (hprops 5 _ (by simp) hversion)
  obtain ⟨authority, rfl, h₆⟩ := oneOfTexts_nonempty (by decide) (hprops 6 _ (by simp) hauthority)
  exact ⟨⟨property, target, technique, basis, status, version, authority⟩, ⟨hproperty, h₁⟩,
    ⟨htarget, h₂⟩, ⟨htechnique, h₃⟩, ⟨hstatus, h₄⟩, ⟨hauthority, h₆⟩, ⟨hversion, h₅⟩, b, hb, hbasis⟩

theorem scopes_valid {m : Members String}
    (h : ∀ x, m.get? "scopes" = some x →
      allOf [type [.array], minItems 1, uniqueItems, items text] x = true) :
    ∃ scopes, ScopesAuthoredIn (.dict m) scopes := by
  cases hs : m.get? "scopes" with
  | none => exact ⟨none, hs⟩
  | some raw =>
    have hvalid := h raw hs
    rw [allOf_iff] at hvalid
    obtain ⟨l, rfl⟩ := type_array_iff.1 (hvalid _ (.head _))
    have hlen : 1 ≤ l.length := minItems_list.1 (hvalid _ (.tail _ (.head _)))
    have hdistinct := uniqueItems_list.1 (hvalid _ (.tail _ (.tail _ (.head _))))
    have hitems := items_list.1 (hvalid _ (.tail _ (.tail _ (.tail _ (.head _)))))
    obtain ⟨texts, htexts⟩ := exists_forall₂ fun v hv => text_valid (hitems v hv)
    have hl : l = texts.map .str ∧ "" ∉ texts := by
      clear hlen hdistinct hitems hvalid hs h
      induction htexts with
      | nil => exact ⟨rfl, by simp⟩
      | cons hst _ ih =>
        obtain ⟨rfl, hne⟩ := hst
        exact ⟨by rw [ih.1]; rfl, by simp [ih.2, hne.symm]⟩
    obtain ⟨rfl, hempty⟩ := hl
    refine ⟨some texts, hs, ?_, distinct_texts.1 hdistinct, hempty⟩
    rintro rfl
    simp at hlen

end TaskSchema

open Schema TaskSchema in
/-- A valid document authors a declaration. -/
theorem taskSchema_valid {v : Value String} (h : taskSchema v = true)
    (hint : IntegersAuthored v) : ∃ d : PaaTaskDeclaration, d.AuthoredIn v := by
  have hwindow := hint.window
  have hnofloat := hint.version
  obtain ⟨m, rfl, hreq, -, hprops⟩ := object_valid h
  obtain ⟨_, htask⟩ := hreq "task" (by simp)
  obtain ⟨_, hversion⟩ := hreq "version" (by simp)
  obtain ⟨_, hinitial⟩ := hreq "initial_position" (by simp)
  obtain ⟨_, hdeployment⟩ := hreq "deployment" (by simp)
  obtain ⟨_, hevaluators⟩ := hreq "evaluators" (by simp)
  obtain ⟨policyRaw, hpolicyRaw⟩ := hreq "position_policy" (by simp)
  obtain ⟨promotionRaw, hpromotionRaw⟩ := hreq "promotion" (by simp)
  obtain ⟨demotionRaw, hdemotionRaw⟩ := hreq "demotion" (by simp)
  have htaskValid := allOf_iff.1 (hprops 0 _ (by simp) htask)
  obtain ⟨task, rfl⟩ := type_string_iff.1 (htaskValid _ (.head _))
  have hpattern : taskPattern task = true := pattern_str.1 (htaskValid _ (.tail _ (.head _)))
  obtain ⟨version, rfl, hpos⟩ := positive_valid (hprops 1 _ (by simp) hversion)
    fun f hf => hnofloat f (hf ▸ hversion)
  obtain ⟨initial, rfl⟩ := autonomyPosition_valid (hprops 4 _ (by simp) hinitial)
  obtain ⟨deployment, rfl⟩ := deployment_valid (hprops 5 _ (by simp) hdeployment)
  obtain ⟨scopes, hscopes⟩ := scopes_valid fun x => hprops 6 x (by simp)
  have harray := allOf_iff.1 (hprops 7 _ (by simp) hevaluators)
  obtain ⟨l, rfl⟩ := type_array_iff.1 (harray _ (.head _))
  have hlen : 1 ≤ l.length := minItems_list.1 (harray _ (.tail _ (.head _)))
  have hitems := items_list.1 (harray _ (.tail _ (.tail _ (.tail _ (.head _)))))
  obtain ⟨evaluators, hbuilt⟩ := exists_forall₂ fun e he => evaluator_valid (hitems e he)
  obtain ⟨policy, hpolicy⟩ := positionPolicy_valid (hprops 8 _ (by simp) hpolicyRaw)
  obtain ⟨promotion, hpromotion⟩ := promotion_valid (hprops 9 _ (by simp) hpromotionRaw)
    fun w f hw => hwindow "promotion" (by simp) _ w f hpromotionRaw hw
  obtain ⟨demotion, hdemotion⟩ := demotion_valid (hprops 10 _ (by simp) hdemotionRaw)
    fun w f hw => hwindow "demotion" (by simp) _ w f hdemotionRaw hw
  refine ⟨⟨task, version, deployment, initial, evaluators, policy, promotion, demotion, scopes⟩,
    ⟨htask, ?_⟩, ⟨hversion, hpos⟩, hdeployment, hinitial, ⟨l, hevaluators, ?_, hbuilt⟩,
    ⟨policyRaw, hpolicyRaw, hpolicy⟩, ⟨promotionRaw, hpromotionRaw, hpromotion⟩,
    ⟨demotionRaw, hdemotionRaw, hdemotion⟩, hscopes⟩
  · rintro rfl
    cases hpattern
  · rintro rfl
    simp at hlen

end PaaRuntime
