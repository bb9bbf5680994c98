import PaaRuntime.DeclarationRules

/-!
# How the loader fails

The loader promises that a malformed declaration raises `PaaDeclarationError` only. It does so
exactly on the documents that are `DeclarationReadable`: wherever a message quotes a value, `repr`
can show it, and the unsupported keys of the position policy can be sorted.
-/

namespace PaaRuntime

section

variable {α : Type} {raw v : Value String} {m : Members String} {what path key : String}

/-! ## Values of the right form -/

/-- A text that is not empty. -/
def IsText (v : Value String) : Prop := ∃ s : String, v = .str s ∧ s ≠ ""

/-- An integer from 1 on. -/
def IsPositive (v : Value String) : Prop := ∃ i : ℤ, v = .int i ∧ 1 ≤ i

/-- One of the four positions. -/
def IsPosition (v : Value String) : Prop := ∃ p : AutonomyPosition, v = .str p.text

/-- One of the three modes. -/
def IsMode (v : Value String) : Prop := ∃ m : PositionPolicyMode, v = .str m.text

/-- One of the two ways to execute a promotion. -/
def IsExecution (v : Value String) : Prop := ∃ e : PromotionExecution, v = .str e.text

/-- One of the three deployments. -/
def IsDeployment (v : Value String) : Prop := ∃ d : Deployment, v = .str d.text

/-! ## Readable parts -/

/-- The values that a mapping has under some keys. -/
def Present (v : Value String) (keys : List String) (w : String → Value String) : Prop :=
  ∀ k ∈ keys, v.member k = some (w k)

/-- The kind of a window is quoted where it is unsupported. -/
def WindowReadable (v : Value String) : Prop :=
  ∀ w, Present v ["kind", "size"] w → (w "kind").shows = true

/-- The values a promotion quotes, in the order in which they are read. -/
def PromotionReadable (v : Value String) : Prop :=
  ∀ p, Present v ["from", "to", "report", "window", "execution"] p →
    (p "execution").shows = true ∧ (IsExecution (p "execution") → IsText (p "report") →
      (p "from").shows = true ∧ (IsPosition (p "from") →
        (p "to").shows = true ∧ (IsPosition (p "to") → WindowReadable (p "window"))))

def DemotionReadable (v : Value String) : Prop :=
  ∀ d, Present v ["from", "to", "trigger", "window"] d → IsText (d "trigger") →
    (d "from").shows = true ∧ (IsPosition (d "from") →
      (d "to").shows = true ∧ (IsPosition (d "to") → WindowReadable (d "window")))

def SelectorFormed (v : Value String) : Prop := ∃ s : PaaEvaluatorSelector, s.AuthoredIn v

def OverrideFormed (v : Value String) : Prop := ∃ o : PaaPlacementOverride, o.AuthoredIn v

def PlacementFormed (v : Value String) : Prop := ∃ p : PaaPlacement, p.AuthoredIn v

/-- The placement of an override is quoted once its selector is read. -/
def OverrideReadable (v : Value String) : Prop :=
  ∀ o, Present v ["selector", "placement"] o → SelectorFormed (o "selector") →
    (o "placement").shows = true

/-- The default is quoted once every override is read. -/
def PlacementReadable (v : Value String) : Prop :=
  ∀ p, Present v ["default", "overrides"] p → ∀ l, p "overrides" = .list l → l ≠ [] →
    InTurn OverrideFormed OverrideReadable l ∧
      ((∀ o ∈ l, OverrideFormed o) → (p "default").shows = true)

/-- Unsupported keys are sorted and quoted; without any, the placements are read. -/
def PolicyReadable (v : Value String) : Prop :=
  ∀ m : Members String, v = .dict m →
    Comparable (unknownKeys m) ∧ (∀ k ∈ unknownKeys m, k.shows = true) ∧
      (unknownKeys m = [] →
        InTurn (fun position => ∀ p, m.get? (AutonomyPosition.text position) = some p →
            PlacementFormed p)
          (fun position => ∀ p, m.get? (AutonomyPosition.text position) = some p →
            PlacementReadable p) (positionsOf m))

/-- The evaluator is authored and registered. -/
def EvaluatorFormed (registry : List ProducerRegistration) (v : Value String) : Prop :=
  ∃ e : PaaEvaluator, e.AuthoredIn v ∧ Registered registry e

/-- The values a declaration quotes, in the order in which they are read. -/
def DeclarationReadable (registry : List ProducerRegistration) (v : Value String) : Prop :=
  ∀ d, Present v ["task", "version", "deployment", "initial_position", "evaluators",
      "position_policy", "promotion", "demotion"] d →
    IsText (d "task") → IsPositive (d "version") →
    (d "deployment").shows = true ∧ (IsDeployment (d "deployment") →
      ∀ l, d "evaluators" = .list l → l ≠ [] →
      (d "initial_position").shows = true ∧ (IsPosition (d "initial_position") →
        (∀ e ∈ l, EvaluatorFormed registry e) →
        PolicyReadable (d "position_policy") ∧
          ((∃ p : PaaPositionPolicy, p.AuthoredIn (d "position_policy")) →
            PromotionReadable (d "promotion") ∧
              ((∃ p : PaaPromotion, p.AuthoredIn (d "promotion")) →
                DemotionReadable (d "demotion")))))

/-! ## Windows and transitions -/

/-- A mapping with its required keys is read further; anything else is refused. -/
theorem failsClosed_object {required : List String} (hne : required ≠ [])
    {f : Members String → Load α} {C : (String → Value String) → Prop}
    (h : ∀ (m : Members String) (w : String → Value String),
      (∀ k ∈ required, m.get? k = some (w k)) → (FailsClosed (f m) ↔ C w)) :
    FailsClosed (do
      let m ← requireMapping raw what path
      requireKeys m required what path
      f m) ↔ ∀ w, Present raw required w → C w := by
  simp only [failsClosed_bind, requireMapping_failsClosed, requireMapping_ok, true_and,
    requireKeys_failsClosed, requireKeys_ok, forall_const]
  constructor
  · intro hf w hw
    obtain ⟨k, hk⟩ := List.exists_mem_of_ne_nil required hne
    obtain ⟨m, rfl⟩ := Value.dict_of_member (hw k hk)
    exact (h m w hw).1 (hf m rfl fun k hk => ⟨w k, hw k hk⟩)
  · rintro hC m rfl hkeys
    have hw : ∀ k ∈ required, m.get? k = some ((m.get? k).getD (.scalar .null)) := by
      intro k hk
      obtain ⟨v, hv⟩ := hkeys k hk
      rw [hv]
      rfl
    exact (h m _ hw).2 (hC _ hw)

/-- A key that is there is read. -/
theorem item_bind (h : m.get? key = some v) (f : Value String → Load α) :
    (subscript m key >>= f) = f v := by
  rw [subscript_ok.2 h]
  rfl

/-- A check that never fails otherwise comes before the rest. -/
theorem closed_seq {β : Type} {x : Load β} (hx : FailsClosed x) {F D : Prop}
    (hF : (∃ b, x = .ok b) ↔ F) {f : β → Load α} (hD : ∀ b, FailsClosed (f b) ↔ D) :
    FailsClosed (x >>= f) ↔ (F → D) := by
  have h := failsOnly_seq (iff_true_intro hx) hF fun b _ => hD b
  rwa [true_and] at h

/-- A text is required before the rest is read. -/
theorem requireText_seq {message : String} {f : String → Load α} {D : Prop}
    (hD : ∀ s, FailsClosed (f s) ↔ D) :
    FailsClosed (requireText v message >>= f) ↔ (IsText v → D) := by
  refine closed_seq requireText_failsClosed ?_ hD
  simp only [requireText_ok]
  rfl

/-- A position is required, and quoted, before the rest is read. -/
theorem requirePosition_seq (hv : m.get? key = some v) {f : AutonomyPosition → Load α} {D : Prop}
    (hD : ∀ p, FailsClosed (f p) ↔ D) :
    FailsClosed (requirePosition m key what path >>= f) ↔ v.shows = true ∧ (IsPosition v → D) := by
  have hshown : FailsClosed (requirePosition m key what path) ↔ v.shows = true := by
    rw [requirePosition_failsClosed ⟨v, hv⟩, hv]
    simp
  refine failsOnly_seq hshown ?_ fun p _ => hD p
  simp only [requirePosition_ok, hv, Option.some.injEq]
  rfl

theorem buildWindow_failsClosed : FailsClosed (buildWindow raw path) ↔ WindowReadable raw := by
  apply failsClosed_object (by simp)
  intro m w hw
  rw [item_bind (hw "kind" (by simp)), item_bind (hw "size" (by simp)), failsClosed_bind,
    requireOneOf_failsClosed]
  refine and_iff_left fun k _ => ?_
  cases k with
  | cases => exact failsClosed_bind.2 ⟨requirePositive_failsClosed, fun _ _ => failsClosed_pure _⟩
  | duration => exact failsClosed_bind.2 ⟨requireText_failsClosed, fun _ _ => failsClosed_pure _⟩

/-- The window of a transition is read last. -/
theorem window_seq (hv : m.get? "window" = some v) {f : PaaWindow → α} :
    FailsClosed (do
      let window ← buildWindow (← subscript m "window") path
      return f window) ↔ WindowReadable v := by
  rw [item_bind hv, failsClosed_bind, buildWindow_failsClosed]
  exact and_iff_left fun w _ => failsClosed_pure _

theorem buildPromotion_failsClosed :
    FailsClosed (buildPromotion raw path) ↔ PromotionReadable raw := by
  apply failsClosed_object (by simp)
  intro m p hp
  rw [item_bind (hp "execution" (by simp))]
  refine failsOnly_seq requireOneOf_failsClosed ?_ fun execution _ => ?_
  · simp only [requireOneOf_ok PromotionExecution.ofText?_eq_some]
    rfl
  · rw [item_bind (hp "report" (by simp))]
    refine requireText_seq fun report => ?_
    refine requirePosition_seq (hp "from" (by simp)) fun fromPosition => ?_
    refine requirePosition_seq (hp "to" (by simp)) fun toPosition => ?_
    exact window_seq (hp "window" (by simp))

theorem buildDemotion_failsClosed :
    FailsClosed (buildDemotion raw path) ↔ DemotionReadable raw := by
  apply failsClosed_object (by simp)
  intro m d hd
  rw [item_bind (hd "trigger" (by simp))]
  refine requireText_seq fun trigger => ?_
  refine requirePosition_seq (hd "from" (by simp)) fun fromPosition => ?_
  refine requirePosition_seq (hd "to" (by simp)) fun toPosition => ?_
  exact window_seq (hd "window" (by simp))

/-! ## Placements -/

/-- A selector quotes nothing. -/
theorem buildSelector_failsClosed : FailsClosed (buildSelector raw what path) := by
  have h : FailsClosed (buildSelector raw what path) ↔
      ∀ w, Present raw ["property", "technique"] w → True := by
    apply failsClosed_object (by simp)
    intro m w hw
    rw [item_bind (hw "property" (by simp))]
    refine iff_true_intro (failsClosed_bind.2 ⟨requireText_failsClosed, fun property _ => ?_⟩)
    rw [item_bind (hw "technique" (by simp))]
    refine failsClosed_bind.2 ⟨requireText_failsClosed, fun technique _ => ?_⟩
    split
    · exact failsClosed_pure _
    · exact failsClosed_pure _
    · exact failsClosed_bind.2 ⟨requireText_failsClosed, fun _ _ => failsClosed_pure _⟩
  exact h.2 fun _ _ => trivial

theorem requireMode_failsClosed : FailsClosed (requireMode raw what path) ↔ raw.shows = true :=
  requireOneOf_failsClosed

theorem buildOverride_failsClosed {index : ℕ} :
    FailsClosed (buildOverride what path index raw) ↔ OverrideReadable raw := by
  apply failsClosed_object (by simp)
  intro m o ho
  rw [item_bind (ho "selector" (by simp))]
  refine closed_seq buildSelector_failsClosed ?_ fun selector => ?_
  · simp only [buildSelector_ok]
    rfl
  · rw [item_bind (ho "placement" (by simp)), failsClosed_bind, requireMode_failsClosed]
    exact and_iff_left fun _ _ => failsClosed_pure _

theorem buildOverrides_failsClosed {index : ℕ} {l : List (Value String)} :
    FailsClosed (checkEach (buildOverride what path) index l) ↔
      InTurn OverrideFormed OverrideReadable l := by
  apply failsOnly_checkEach
  · intro i v _
    exact buildOverride_failsClosed
  · intro i v _
    simp only [buildOverride_ok]
    rfl

/-- A list of overrides is built where each one is. -/
theorem buildOverrides_isOk {index : ℕ} {l : List (Value String)} :
    (∃ os, checkEach (buildOverride what path) index l = .ok os) ↔ ∀ o ∈ l, OverrideFormed o := by
  simp only [buildOverrides_ok]
  refine ⟨fun ⟨os, h⟩ o ho => ?_, exists_forall₂⟩
  obtain ⟨i, hi⟩ := List.mem_iff_getElem?.1 ho
  obtain ⟨built, -, hbuilt⟩ := forall₂_getElem?_left h hi
  exact ⟨built, hbuilt⟩

/-- Items are required before the rest is read. -/
theorem requireItems_seq {message : String} {f : List (Value String) → Load α}
    {D : List (Value String) → Prop} (hD : ∀ l, FailsClosed (f l) ↔ D l) :
    FailsClosed (requireItems v message >>= f) ↔ ∀ l, v = .list l → l ≠ [] → D l := by
  simp only [failsClosed_bind, requireItems_failsClosed, requireItems_ok, true_and, and_imp, hD]

theorem buildPlacement_failsClosed {position : String} :
    FailsClosed (buildPlacement raw position path) ↔ PlacementReadable raw := by
  unfold buildPlacement
  dsimp only
  split
  · rename_i s
    rw [failsClosed_bind, requireMode_failsClosed]
    refine iff_of_true ⟨shows_str s, fun _ _ => failsClosed_pure _⟩ fun p hp => ?_
    cases hp "default" (by simp)
  · apply failsClosed_object (by simp)
    intro m p hp
    rw [item_bind (hp "overrides" (by simp))]
    refine requireItems_seq fun l => ?_
    refine failsOnly_seq buildOverrides_failsClosed buildOverrides_isOk fun os _ => ?_
    rw [item_bind (hp "default" (by simp))]
    show FailsClosed _ ↔ _
    rw [failsClosed_bind, requireMode_failsClosed]
    exact and_iff_left fun mode _ => failsClosed_pure _

/-! ## Position policies -/

theorem buildPlacementAt_failsClosed {position : AutonomyPosition} {placement : Value String}
    (h : m.get? position.text = some placement) :
    (FailsClosed (buildPlacementAt m path position) ↔ PlacementReadable placement) ∧
      ((∃ b, buildPlacementAt m path position = .ok b) ↔ PlacementFormed placement) := by
  unfold buildPlacementAt
  rw [item_bind h]
  constructor
  · rw [failsClosed_bind, buildPlacement_failsClosed]
    exact and_iff_left fun _ _ => failsClosed_pure _
  · simp only [except_bind_ok, buildPlacement_ok, except_pure_ok]
    exact ⟨fun ⟨_, p, hp, _⟩ => ⟨p, hp⟩, fun ⟨p, hp⟩ => ⟨_, p, hp, rfl⟩⟩

/-- A list of keys can be shown where each of them can. -/
theorem shows_keys {keys : List (Scalar String)} :
    Value.shows (.list (keys.map .scalar)) = true ↔ ∀ k ∈ keys, k.shows = true := by
  have hscalars : Value.scalarsOfItems (keys.map .scalar) = keys := by
    induction keys with
    | nil => rfl
    | cons k keys ih => rw [List.map_cons, Value.scalarsOfItems, ih]; rfl
  rw [Value.shows, Value.scalars, hscalars, List.all_eq_true]

theorem buildPlacements_failsClosed {i : ℕ} :
    FailsClosed (checkEach (fun _ => buildPlacementAt m path) i (positionsOf m)) ↔
      InTurn (fun position => ∀ p, m.get? (AutonomyPosition.text position) = some p →
          PlacementFormed p)
        (fun position => ∀ p, m.get? (AutonomyPosition.text position) = some p →
          PlacementReadable p) (positionsOf m) := by
  have hplacement : ∀ position ∈ positionsOf m, ∃ p, m.get? position.text = some p :=
    fun position h => Option.isSome_iff_exists.1 (List.mem_filter.1 h).2
  apply failsOnly_checkEach
  · intro i position hposition
    obtain ⟨p, hp⟩ := hplacement position hposition
    simp only [hp, Option.some.injEq, forall_eq']
    exact (buildPlacementAt_failsClosed hp).1
  · intro i position hposition
    obtain ⟨p, hp⟩ := hplacement position hposition
    simp only [hp, Option.some.injEq, forall_eq']
    exact (buildPlacementAt_failsClosed hp).2

theorem buildPositionPolicy_failsClosed :
    FailsClosed (buildPositionPolicy raw path) ↔ PolicyReadable raw := by
  unfold buildPositionPolicy
  rw [failsClosed_bind]
  simp only [requireMapping_failsClosed, requireMapping_ok, true_and]
  refine forall₂_congr fun m _ => ?_
  cases m with
  | nil =>
    have hclosed : FailsClosed (refuse [.text
        s!"{path}: 'position_policy' must declare at least one position"] :
        Load PaaPositionPolicy) := refuse_text_failsClosed
    exact iff_of_true hclosed ⟨.inl (Nat.zero_le 1), by simp [unknownKeys], fun _ => trivial⟩
  | cons e m =>
    rw [List.isEmpty_cons, if_neg Bool.false_ne_true, failsClosed_bind, sortedKeys_failsClosed]
    refine and_congr_right fun hc => ?_
    obtain ⟨sorted, hsorted⟩ := sortedKeys_of_comparable hc
    have hperm : sorted.Perm (unknownKeys (e :: m)) := (sortedKeys_ok hsorted).1
    simp only [hsorted, Except.ok.injEq, forall_eq']
    by_cases hnil : sorted = []
    · subst hnil
      have hu : unknownKeys (e :: m) = [] := List.nil_perm.1 hperm
      rw [if_neg (by simp), failsClosed_bind, hu]
      simp only [failsClosed_pure, implies_true, and_true, List.not_mem_nil, false_implies,
        true_and, forall_const]
      exact buildPlacements_failsClosed
    · rw [if_pos hnil, refuse_failsClosed]
      have hne : unknownKeys (e :: m) ≠ [] := fun h => hnil (List.perm_nil.1 (h ▸ hperm))
      simp only [hne, false_implies, and_true, List.mem_cons, List.not_mem_nil, or_false,
        forall_eq_or_imp, forall_eq, Part.shows, shows_keys, true_and]
      exact ⟨fun h k hk => h k (hperm.symm.subset hk), fun h k hk => h k (hperm.subset hk)⟩

/-! ## Declarations -/

theorem buildEvaluationBasis_failsClosed : FailsClosed (buildEvaluationBasis raw path) := by
  have h : FailsClosed (buildEvaluationBasis raw path) ↔
      ∀ w, Present raw ["kind", "ref"] w → True := by
    apply failsClosed_object (by simp)
    intro m w hw
    rw [item_bind (hw "kind" (by simp))]
    refine iff_true_intro (failsClosed_bind.2 ⟨requireText_failsClosed, fun kind _ => ?_⟩)
    rw [item_bind (hw "ref" (by simp))]
    exact failsClosed_bind.2 ⟨requireText_failsClosed, fun _ _ => failsClosed_pure _⟩
  exact h.2 fun _ _ => trivial

/-- An evaluator quotes texts only. -/
theorem buildEvaluator_failsClosed {registry : List ProducerRegistration} :
    FailsClosed (buildEvaluator raw path registry) := by
  have h : FailsClosed (buildEvaluator raw path registry) ↔ ∀ w, Present raw ["property", "target",
      "technique", "evaluation_basis", "epistemic_status", "version", "authority"] w → True := by
    apply failsClosed_object (by simp)
    intro m w hw
    have hfield : ∀ {β : Type} (k : String) (message : String), k ∈ ["property", "target",
        "technique", "evaluation_basis", "epistemic_status", "version", "authority"] →
        ∀ f : String → Load β, (∀ s, FailsClosed (f s)) →
          FailsClosed ((do requireText (← subscript m k) message) >>= f) := by
      intro β k message hk f hf
      rw [item_bind (hw k hk)]
      exact failsClosed_bind.2 ⟨requireText_failsClosed, fun s _ => hf s⟩
    refine iff_true_intro (hfield "property" _ (by simp) _ fun property => ?_)
    refine hfield "target" _ (by simp) _ fun target => ?_
    refine hfield "technique" _ (by simp) _ fun technique => ?_
    refine hfield "epistemic_status" _ (by simp) _ fun status => ?_
    refine hfield "authority" _ (by simp) _ fun authority => ?_
    refine hfield "version" _ (by simp) _ fun version => ?_
    rw [item_bind (hw "evaluation_basis" (by simp))]
    refine failsClosed_bind.2 ⟨buildEvaluationBasis_failsClosed, fun basis _ => ?_⟩
    dsimp only
    split
    · exact failsClosed_pure _
    · exact refuse_text_failsClosed
  exact h.2 fun _ _ => trivial

theorem buildEvaluators_failsClosed {registry : List ProducerRegistration} {i : ℕ}
    {l : List (Value String)} :
    FailsClosed (checkEach (fun _ e => buildEvaluator e path registry) i l) := by
  induction l generalizing i with
  | nil => exact failsOnly_ok _
  | cons e l ih =>
    refine failsClosed_bind.2 ⟨buildEvaluator_failsClosed, fun b _ => ?_⟩
    exact failsClosed_bind.2 ⟨ih, fun _ _ => failsClosed_pure _⟩

/-- A list of evaluators is built where each one is authored and registered. -/
theorem buildEvaluators_isOk {registry : List ProducerRegistration} {i : ℕ}
    {l : List (Value String)} :
    (∃ es, checkEach (fun _ e => buildEvaluator e path registry) i l = .ok es) ↔
      ∀ e ∈ l, EvaluatorFormed registry e := by
  have hone : ∀ (_ : ℕ) (v : Value String) (e : PaaEvaluator),
      buildEvaluator v path registry = .ok e ↔ e.AuthoredIn v ∧ Registered registry e :=
    fun _ _ _ => buildEvaluator_ok
  simp only [checkEach_ok hone]
  refine ⟨fun ⟨es, h⟩ v hv => ?_, exists_forall₂⟩
  obtain ⟨j, hj⟩ := List.mem_iff_getElem?.1 hv
  obtain ⟨e, -, he⟩ := forall₂_getElem?_left h hj
  exact ⟨e, he⟩

theorem readScopes_failsClosed {seen : List String} {l : List (Value String)} :
    FailsClosed (readScopes path seen l) := by
  induction l generalizing seen with
  | nil => exact failsOnly_ok _
  | cons v l ih =>
    refine failsClosed_bind.2 ⟨requireText_failsClosed, fun s _ => ?_⟩
    split_ifs
    · exact refuse_text_failsClosed
    · exact failsClosed_bind.2 ⟨ih, fun _ _ => failsClosed_pure _⟩

theorem buildScopes_failsClosed : FailsClosed (buildScopes m path) := by
  unfold buildScopes
  split
  · exact failsOnly_ok _
  · refine failsClosed_bind.2 ⟨requireItems_failsClosed, fun l _ => ?_⟩
    exact failsClosed_bind.2 ⟨readScopes_failsClosed, fun _ _ => failsClosed_pure _⟩

theorem buildFields_failsClosed {registry : List ProducerRegistration} :
    FailsClosed (buildFields raw path registry) ↔ DeclarationReadable registry raw := by
  apply failsClosed_object (by simp)
  intro m d hd
  rw [item_bind (hd "task" (by simp))]
  refine requireText_seq fun task => ?_
  rw [item_bind (hd "version" (by simp))]
  refine closed_seq requirePositive_failsClosed ?_ fun version => ?_
  · simp only [requirePositive_ok]
    rfl
  rw [item_bind (hd "deployment" (by simp))]
  refine failsOnly_seq requireOneOf_failsClosed ?_ fun deployment _ => ?_
  · simp only [requireOneOf_ok Deployment.ofText?_eq_some]
    rfl
  rw [item_bind (hd "evaluators" (by simp))]
  refine requireItems_seq fun l => ?_
  refine requirePosition_seq (hd "initial_position" (by simp)) fun initialPosition => ?_
  refine closed_seq buildEvaluators_failsClosed buildEvaluators_isOk fun evaluators => ?_
  rw [item_bind (hd "position_policy" (by simp))]
  refine failsOnly_seq buildPositionPolicy_failsClosed ?_ fun policy _ => ?_
  · simp only [buildPositionPolicy_ok]
  rw [item_bind (hd "promotion" (by simp))]
  refine failsOnly_seq buildPromotion_failsClosed ?_ fun promotion _ => ?_
  · simp only [buildPromotion_ok]
  rw [item_bind (hd "demotion" (by simp))]
  show FailsClosed _ ↔ _
  rw [failsClosed_bind, buildDemotion_failsClosed]
  refine and_iff_left fun demotion _ => ?_
  exact failsClosed_bind.2 ⟨buildScopes_failsClosed, fun _ _ => failsClosed_pure _⟩

end

/-- The sample with another position policy. -/
def Sample.withPolicy (policy : Value String) : Value String :=
  match Sample.document with
  | .dict m => .dict (Members.set m "position_policy" policy)
  | v => v

set_option maxRecDepth 10000 in
/-- The outcome is a `TypeError`. -/
def isTypeError {α : Type} : Load α → Bool
  | .error (.typeError _) => true
  | _ => false

theorem not_failsClosed_of_isTypeError {α : Type} {x : Load α} (h : isTypeError x = true) :
    ¬ FailsClosed x := by
  intro hclosed
  unfold isTypeError at h
  split at h
  · exact hclosed _ rfl
  · cases h

end PaaRuntime
