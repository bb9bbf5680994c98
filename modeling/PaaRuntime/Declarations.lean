import PaaRuntime.Events

/-!
# Task declarations

The dataclasses of `declarations.py`, and the lookup of one task in a loaded directory. A
`Directory` is what `load_paa_declarations` makes of the declarations directory as it stands when
it is read: the declarations by task, or the text of the `PaaDeclarationError` it raises.
-/

namespace PaaRuntime

inductive Deployment
  | active | shadow | disabled
  deriving DecidableEq, Repr

inductive PromotionExecution
  | operatorApproval | automatic
  deriving DecidableEq, Repr

inductive PositionPolicyMode
  | offline | blocking | async
  deriving DecidableEq, Repr

/-- `PaaEvaluationBasis`. -/
structure PaaEvaluationBasis where
  kind : String
  ref : String
  deriving DecidableEq, Repr

/-- `PaaEvaluator`. -/
structure PaaEvaluator where
  property : String
  target : String
  technique : String
  evaluationBasis : PaaEvaluationBasis
  epistemicStatus : String
  version : String
  authority : String
  deriving DecidableEq, Repr

/-- `PaaWindow`: a case count or an ISO-8601 duration. -/
inductive PaaWindow
  | cases (size : Int)
  | duration (size : String)
  deriving DecidableEq, Repr

/-- `PaaPromotion`. -/
structure PaaPromotion where
  fromPosition : AutonomyPosition
  toPosition : AutonomyPosition
  report : String
  window : PaaWindow
  execution : PromotionExecution
  deriving DecidableEq, Repr

/-- `PaaDemotion`. -/
structure PaaDemotion where
  fromPosition : AutonomyPosition
  toPosition : AutonomyPosition
  trigger : String
  window : PaaWindow
  deriving DecidableEq, Repr

/-- `PaaEvaluatorSelector`. -/
structure PaaEvaluatorSelector where
  property : String
  technique : String
  version : Option String
  deriving DecidableEq, Repr

/-- `PaaPlacementOverride`. -/
structure PaaPlacementOverride where
  selector : PaaEvaluatorSelector
  placement : PositionPolicyMode
  deriving DecidableEq, Repr

/-- `PaaPlacement`. -/
structure PaaPlacement where
  default : PositionPolicyMode
  overrides : List PaaPlacementOverride
  deriving DecidableEq, Repr

/-- `PaaPositionPolicy`: the placement of each declared position. -/
structure PaaPositionPolicy where
  placements : List (AutonomyPosition × PaaPlacement)
  deriving DecidableEq, Repr

/-- `PaaTaskDeclaration`. -/
structure PaaTaskDeclaration where
  task : String
  version : Int
  deployment : Deployment
  initialPosition : AutonomyPosition
  evaluators : List PaaEvaluator
  positionPolicy : PaaPositionPolicy
  promotion : PaaPromotion
  demotion : PaaDemotion
  scopes : Option (List String)
  deriving DecidableEq, Repr

namespace PaaTaskDeclaration

/-- The pair is the promotion or the demotion of the declaration. -/
def Declares (d : PaaTaskDeclaration) (fromPosition toPosition : AutonomyPosition) : Prop :=
  fromPosition = d.promotion.fromPosition ∧ toPosition = d.promotion.toPosition ∨
    fromPosition = d.demotion.fromPosition ∧ toPosition = d.demotion.toPosition

instance (d : PaaTaskDeclaration) (p q : AutonomyPosition) : Decidable (d.Declares p q) :=
  inferInstanceAs (Decidable (_ ∨ _))

/-- The scope is permitted: null where no scopes are declared, else one of them. -/
def Permits (d : PaaTaskDeclaration) : Option String → Prop
  | none => d.scopes = none
  | some s => ∃ l, d.scopes = some l ∧ s ∈ l

/-- The partition of authority the declaration governs at a scope. -/
def triple (d : PaaTaskDeclaration) (scope : Option String) : Triple := ⟨d.task, d.version, scope⟩

end PaaTaskDeclaration

/-! ## Loading -/

/-- What `load_paa_declarations` makes of the declarations directory. -/
abbrev Directory := Except String (List PaaTaskDeclaration)

/-- The fields of `RuntimeConfig` that the workflows read besides the stores they name. -/
structure RuntimeConfig where
  declarationsDir : String
  evidenceRoot : String
  actorEnvVar : String := "PAA_ACTOR"

/-- `get_paa_declaration`. -/
def getPaaDeclaration (config : RuntimeConfig) (directory : Directory) (task : String) :
    Except PyError PaaTaskDeclaration :=
  match directory with
  | .error message => .error ⟨.paaDeclarationError, message⟩
  | .ok declarations =>
    match declarations.find? (·.task = task) with
    | some declaration => .ok declaration
    | none => .error ⟨.paaDeclarationError,
        s!"no PAA declaration for task {pyRepr task} in {config.declarationsDir}"⟩

theorem getPaaDeclaration_ok {config : RuntimeConfig} {directory : Directory} {task : String}
    {d : PaaTaskDeclaration} (h : getPaaDeclaration config directory task = .ok d) :
    d.task = task ∧ ∃ ds, directory = .ok ds ∧ d ∈ ds := by
  unfold getPaaDeclaration at h
  rcases directory with message | ds
  · cases h
  · rcases hf : ds.find? (·.task = task) with _ | d' <;> simp only [hf] at h <;> cases h
    exact ⟨by simpa using List.find?_some hf, ds, rfl, List.mem_of_find?_eq_some hf⟩

theorem getPaaDeclaration_error {config : RuntimeConfig} {directory : Directory} {task : String}
    {e : PyError} (h : getPaaDeclaration config directory task = .error e) :
    e.cls = .paaDeclarationError := by
  unfold getPaaDeclaration at h
  rcases directory with message | ds
  · cases h; rfl
  · rcases hf : ds.find? (·.task = task) with _ | d' <;> simp only [hf] at h <;> cases h
    rfl

end PaaRuntime
