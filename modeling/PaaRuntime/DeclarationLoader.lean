import PaaRuntime.Declarations
import PaaRuntime.Lib.Checks
import PaaRuntime.Lib.Value

/-!
# Loading a declaration

`_build_declaration` and its helpers: from the value that YAML makes of a file to a declaration, or a
`PaaDeclarationError`. A message is an f-string, kept as its parts; a value it quotes is shown by
`repr`, which refuses an integer of more than 4300 digits, and `sorted` refuses keys that have no
order, so that other exceptions than the module's own are possible outcomes here.
-/

namespace PaaRuntime

/-! ## Exceptions -/

/-- `PAA_DECLARATION_CODES`. -/
inductive DeclarationCode
  | initialPositionNotInPolicy | transitionSamePosition | transitionPositionNotInPolicy
  | overrideMatchesNoEvaluator | overrideAmbiguous | overrideDuplicate | overrideRedundant
  deriving DecidableEq, Repr

def DeclarationCode.text : DeclarationCode → String
  | .initialPositionNotInPolicy => "initial_position.not_in_policy"
  | .transitionSamePosition => "transition.same_position"
  | .transitionPositionNotInPolicy => "transition.position_not_in_policy"
  | .overrideMatchesNoEvaluator => "placement.override_matches_no_evaluator"
  | .overrideAmbiguous => "placement.override_ambiguous"
  | .overrideDuplicate => "placement.override_duplicate"
  | .overrideRedundant => "placement.override_redundant"

/-- A part of an f-string: a text, or a value shown by `repr`. -/
inductive Part
  | text (s : String)
  | shown (v : Value String)

/-- `PaaDeclarationError`. -/
structure PaaDeclarationError where
  message : List Part
  code : Option DeclarationCode := none
  pointer : Option String := none

/-- The exceptions that a builder could raise. -/
inductive BuildError
  | paaDeclarationError (e : PaaDeclarationError)
  | typeError (message : String)
  | valueError (message : String)
  | keyError (key : String)

/-- The exception is the module's own. -/
def BuildError.IsDeclarationError : BuildError → Prop
  | .paaDeclarationError _ => True
  | _ => False

abbrev Load := Except BuildError

/-- `sys.get_int_max_str_digits()`. -/
def maxStrDigits : ℕ := 4300

/-- `repr` shows the scalar. -/
def Scalar.shows : Scalar String → Bool
  | .int i => i.natAbs.repr.length ≤ maxStrDigits
  | _ => true

/-- `repr` shows the value: it shows every scalar inside. -/
def Value.shows (v : Value String) : Bool := v.scalars.all Scalar.shows

def Part.shows : Part → Bool
  | .text _ => true
  | .shown v => v.shows

/-- `raise PaaDeclarationError(f"...")`: the message is built first. -/
def refuse {α : Type} (message : List Part) : Load α :=
  if message.all Part.shows then .error (.paaDeclarationError { message })
  else .error (.valueError ("Exceeds the limit (4300 digits) for integer string conversion; " ++
    "use sys.set_int_max_str_digits() to increase the limit"))

/-- `raise PaaDeclarationError(f"...", code=..., pointer=...)`. -/
def refuseRule {α : Type} (message : String) (code : DeclarationCode) (pointer : String) :
    Load α :=
  .error (.paaDeclarationError ⟨[.text message], some code, some pointer⟩)

/-! ## Vocabulary -/

def Deployment.text : Deployment → String
  | .active => "active"
  | .shadow => "shadow"
  | .disabled => "disabled"

def Deployment.ofText? : String → Option Deployment
  | "active" => some .active
  | "shadow" => some .shadow
  | "disabled" => some .disabled
  | _ => none

/-- `WindowKind`. -/
inductive WindowKind
  | cases | duration
  deriving DecidableEq, Repr

def WindowKind.text : WindowKind → String
  | .cases => "cases"
  | .duration => "duration"

def WindowKind.ofText? : String → Option WindowKind
  | "cases" => some .cases
  | "duration" => some .duration
  | _ => none

def PromotionExecution.text : PromotionExecution → String
  | .operatorApproval => "operator_approval"
  | .automatic => "automatic"

def PromotionExecution.ofText? : String → Option PromotionExecution
  | "operator_approval" => some .operatorApproval
  | "automatic" => some .automatic
  | _ => none

def PositionPolicyMode.text : PositionPolicyMode → String
  | .offline => "offline"
  | .blocking => "blocking"
  | .async => "async"

def PositionPolicyMode.ofText? : String → Option PositionPolicyMode
  | "offline" => some .offline
  | "blocking" => some .blocking
  | "async" => some .async
  | _ => none

theorem Deployment.ofText?_eq_some {s : String} {d : Deployment} :
    Deployment.ofText? s = some d ↔ s = d.text := by
  refine ⟨fun h => ?_, fun h => by subst h; cases d <;> rfl⟩
  unfold Deployment.ofText? at h
  split at h <;> cases h <;> rfl

theorem WindowKind.ofText?_eq_some {s : String} {k : WindowKind} :
    WindowKind.ofText? s = some k ↔ s = k.text := by
  refine ⟨fun h => ?_, fun h => by subst h; cases k <;> rfl⟩
  unfold WindowKind.ofText? at h
  split at h <;> cases h <;> rfl

theorem PromotionExecution.ofText?_eq_some {s : String} {e : PromotionExecution} :
    PromotionExecution.ofText? s = some e ↔ s = e.text := by
  refine ⟨fun h => ?_, fun h => by subst h; cases e <;> rfl⟩
  unfold PromotionExecution.ofText? at h
  split at h <;> cases h <;> rfl

theorem PositionPolicyMode.ofText?_eq_some {s : String} {m : PositionPolicyMode} :
    PositionPolicyMode.ofText? s = some m ↔ s = m.text := by
  refine ⟨fun h => ?_, fun h => by subst h; cases m <;> rfl⟩
  unfold PositionPolicyMode.ofText? at h
  split at h <;> cases h <;> rfl

/-- The positions in the order of their texts. -/
def positionsInOrder : List AutonomyPosition := [.autonomous, .hitl, .hotl, .manual]

/-- `ProducerRegistration`, without the status, which no lookup reads. -/
structure ProducerRegistration where
  property : String
  target : String
  technique : String
  evaluationBasis : PaaEvaluationBasis
  epistemicStatus : String
  version : String
  authority : String
  deriving DecidableEq, Repr

/-- The identity that a registration registers. -/
def ProducerRegistration.evaluator (r : ProducerRegistration) : PaaEvaluator :=
  ⟨r.property, r.target, r.technique, r.evaluationBasis, r.epistemicStatus, r.version, r.authority⟩

/-- `_resolve_producer`. -/
def resolveProducer (evaluator : PaaEvaluator) (registry : List ProducerRegistration) :
    Option ProducerRegistration := registry.find? (·.evaluator = evaluator)

/-- `PaaEvaluatorSelector.matches`. -/
def PaaEvaluatorSelector.matches (s : PaaEvaluatorSelector) (e : PaaEvaluator) : Bool :=
  e.property = s.property && e.technique = s.technique && s.version.all (e.version = ·)

/-- `PaaPlacement.for_evaluator`. -/
def PaaPlacement.forEvaluator (p : PaaPlacement) (e : PaaEvaluator) : PositionPolicyMode :=
  match p.overrides.find? (·.selector.matches e) with
  | some override => override.placement
  | none => p.default

/-- The placement of a position, where it is declared. -/
def PaaPositionPolicy.placement? (p : PaaPositionPolicy) (position : AutonomyPosition) :
    Option PaaPlacement := (p.placements.find? (·.1 = position)).map (·.2)

/-- `PaaPositionPolicy.__contains__`. -/
def PaaPositionPolicy.declares (p : PaaPositionPolicy) (position : AutonomyPosition) : Bool :=
  (p.placement? position).isSome

/-- `PaaPositionPolicy.declared_positions`. -/
def PaaPositionPolicy.declaredPositions (p : PaaPositionPolicy) : List AutonomyPosition :=
  positionsInOrder.filter p.declares

/-! ## Checks shared by the builders -/

/-- `_require_mapping`. -/
def requireMapping (raw : Value String) (what path : String) : Load (Members String) :=
  match raw with
  | .dict m => .ok m
  | _ => refuse [.text s!"{path}: {what} must be a mapping"]

/-- `raw[key]`. -/
def subscript (raw : Members String) (key : String) : Load (Value String) :=
  match raw.get? key with
  | some v => .ok v
  | none => .error (.keyError key)

/-- `_require_keys`. -/
def requireKeys (raw : Members String) (required : List String) (what path : String) : Load Unit :=
  let missing := required.filter fun k => (raw.get? k).isNone
  if missing = [] then .ok ()
  else refuse [.text s!"{path}: {what} missing required field(s): {pyReprList (pySorted missing)}"]

/-- One of the supported texts; the message quotes the value. -/
def requireOneOf {α : Type} (ofText? : String → Option α) (value : Value String)
    (before after : String) : Load α :=
  match value.text?.bind ofText? with
  | some a => .ok a
  | none => refuse [.text before, .shown value, .text after]

/-- A text that is not empty. -/
def requireText (value : Value String) (message : String) : Load String :=
  match value with
  | .scalar (.str s) => if s ≠ "" then .ok s else refuse [.text message]
  | _ => refuse [.text message]

/-- An integer from 1 on; a truth value is none. -/
def requirePositive (value : Value String) (message : String) : Load ℤ :=
  match value with
  | .scalar (.int i) => if 1 ≤ i then .ok i else refuse [.text message]
  | _ => refuse [.text message]

/-- A list that is not empty. -/
def requireItems (value : Value String) (message : String) : Load (List (Value String)) :=
  match value with
  | .list (v :: l) => .ok (v :: l)
  | _ => refuse [.text message]

/-- `(must be one of [...])`. -/
def mustBeOneOf (texts : List String) : String :=
  s!" (must be one of {pyReprList (pySorted texts)})"

/-- `_require_position`. -/
def requirePosition (raw : Members String) (key what path : String) : Load AutonomyPosition := do
  requireOneOf AutonomyPosition.ofText? (← subscript raw key)
    s!"{path}: {what} {pyRepr key} is unsupported: "
    (mustBeOneOf ["manual", "hitl", "hotl", "autonomous"])

/-- `_require_mode`. -/
def requireMode (raw : Value String) (what path : String) : Load PositionPolicyMode :=
  requireOneOf PositionPolicyMode.ofText? raw s!"{path}: {what} is unsupported: "
    (mustBeOneOf ["offline", "blocking", "async"])

/-! ## Builders -/

/-- `_build_window`. -/
def buildWindow (raw : Value String) (path : String) : Load PaaWindow := do
  let window ← requireMapping raw "window" path
  requireKeys window ["kind", "size"] "window" path
  let kind ← subscript window "kind"
  let size ← subscript window "size"
  match ← requireOneOf WindowKind.ofText? kind s!"{path}: unsupported window kind "
      (mustBeOneOf ["cases", "duration"]) with
  | .cases =>
    return .cases (← requirePositive size
      s!"{path}: cases window 'size' must be a positive integer")
  | .duration =>
    return .duration (← requireText size
      s!"{path}: duration window 'size' must be a non-empty string")

/-- `_build_promotion`. -/
def buildPromotion (raw : Value String) (path : String) : Load PaaPromotion := do
  let promotion ← requireMapping raw "promotion" path
  requireKeys promotion ["from", "to", "report", "window", "execution"] "promotion" path
  let execution ← requireOneOf PromotionExecution.ofText? (← subscript promotion "execution")
    s!"{path}: unsupported promotion execution " (mustBeOneOf ["operator_approval", "automatic"])
  let report ← requireText (← subscript promotion "report")
    s!"{path}: promotion 'report' must be a non-empty string"
  let fromPosition ← requirePosition promotion "from" "promotion" path
  let toPosition ← requirePosition promotion "to" "promotion" path
  let window ← buildWindow (← subscript promotion "window") path
  return ⟨fromPosition, toPosition, report, window, execution⟩

/-- `_build_demotion`. -/
def buildDemotion (raw : Value String) (path : String) : Load PaaDemotion := do
  let demotion ← requireMapping raw "demotion" path
  requireKeys demotion ["from", "to", "trigger", "window"] "demotion" path
  let trigger ← requireText (← subscript demotion "trigger")
    s!"{path}: demotion 'trigger' must be a non-empty string"
  let fromPosition ← requirePosition demotion "from" "demotion" path
  let toPosition ← requirePosition demotion "to" "demotion" path
  let window ← buildWindow (← subscript demotion "window") path
  return ⟨fromPosition, toPosition, trigger, window⟩

/-- `_build_selector`. -/
def buildSelector (raw : Value String) (what path : String) : Load PaaEvaluatorSelector := do
  let selector ← requireMapping raw what path
  requireKeys selector ["property", "technique"] what path
  let property ← requireText (← subscript selector "property")
    s!"{path}: {what} 'property' must be a non-empty string"
  let technique ← requireText (← subscript selector "technique")
    s!"{path}: {what} 'technique' must be a non-empty string"
  match selector.get? "version" with
  | none | some (.scalar .null) => return ⟨property, technique, none⟩
  | some version =>
    return ⟨property, technique, some (← requireText version
      s!"{path}: {what} 'version' must be a non-empty string")⟩

/-- One entry of `overrides`. -/
def buildOverride (what path : String) (index : ℕ) (raw : Value String) :
    Load PaaPlacementOverride := do
  let place := s!"{what} overrides/{index.repr}"
  let override ← requireMapping raw place path
  requireKeys override ["selector", "placement"] place path
  let selector ← buildSelector (← subscript override "selector") s!"{place} selector" path
  let placement ← requireMode (← subscript override "placement") s!"{place} placement" path
  return ⟨selector, placement⟩

/-- `_build_placement`. -/
def buildPlacement (raw : Value String) (position path : String) : Load PaaPlacement := do
  let what := s!"position_policy {pyRepr position}"
  match raw with
  | .scalar (.str _) => return ⟨← requireMode raw s!"{what} placement" path, []⟩
  | _ =>
    let placement ← requireMapping raw what path
    requireKeys placement ["default", "overrides"] what path
    let overridesRaw ← requireItems (← subscript placement "overrides")
      s!"{path}: {what} 'overrides' must be a non-empty list"
    let overrides ← checkEach (buildOverride what path) 0 overridesRaw
    let default ← requireMode (← subscript placement "default") s!"{what} default" path
    return ⟨default, overrides⟩

/-! ## Position policy -/

/-- The sort of things a key can be ordered with. -/
inductive KeyOrder
  | number | text | bytes | date | naive | aware
  deriving DecidableEq, Repr

def Scalar.order : Scalar String → Option KeyOrder
  | .null => none
  | .bool _ | .int _ | .float _ => some .number
  | .str _ => some .text
  | .bytes _ => some .bytes
  | .date _ => some .date
  | .datetime false _ => some .naive
  | .datetime true _ => some .aware

/-- `a < b` on numbers, truth values included. -/
def PyFloat.lt : PyFloat → PyFloat → Bool
  | .finite a, .finite b => a < b
  | .inf n, .finite _ => n
  | .finite _, .inf n => !n
  | .inf m, .inf n => m && !n
  | _, _ => false

/-- The number of a key of the order `number`. -/
def Scalar.asFloat : Scalar String → PyFloat
  | .bool b => .finite b.toNat
  | .int i => .finite i
  | .float f => f
  | _ => .nan

/-- `a < b` on keys: a `TypeError` where the two have no order. -/
def keyLt (a b : Scalar String) : Load Bool :=
  if a.order.isSome ∧ a.order = b.order then
    match a, b with
    | .str s, .str t => .ok (s < t)
    | .bytes s, .bytes t => .ok (s < t)
    | .date s, .date t | .datetime _ s, .datetime _ t => .ok (s < t)
    | _, _ => .ok (a.asFloat.lt b.asFloat)
  else .error (.typeError "'<' not supported between instances")

/-- Put a key among sorted ones, after those that are less. -/
def insertKey (k : Scalar String) : List (Scalar String) → Load (List (Scalar String))
  | [] => .ok [k]
  | a :: l => do
    if ← keyLt a k then return a :: (← insertKey k l)
    else return k :: a :: l

/-- `sorted` of keys. -/
def sortedKeys : List (Scalar String) → Load (List (Scalar String))
  | [] => .ok []
  | k :: l => do insertKey k (← sortedKeys l)

/-- The key is one of the positions. -/
def Scalar.isPosition (k : Scalar String) : Bool :=
  match k with
  | .str s => (AutonomyPosition.ofText? s).isSome
  | _ => false

/-- One entry of the mapping that `_build_position_policy` makes. -/
def buildPlacementAt (policy : Members String) (path : String) (p : AutonomyPosition) :
    Load (AutonomyPosition × PaaPlacement) := do
  return (p, ← buildPlacement (← subscript policy p.text) p.text path)

/-- `_build_position_policy`. -/
def buildPositionPolicy (raw : Value String) (path : String) : Load PaaPositionPolicy := do
  let policy ← requireMapping raw "position_policy" path
  if policy.isEmpty then
    refuse [.text s!"{path}: 'position_policy' must declare at least one position"]
  else
    let unknown ← sortedKeys ((policy.map (·.1)).filter (!·.isPosition))
    if unknown ≠ [] then
      refuse [.text s!"{path}: position_policy declares unsupported position(s) ",
        .shown (.list (unknown.map .scalar)),
        .text (" (must be among " ++
          pyReprList (pySorted ["manual", "hitl", "hotl", "autonomous"]) ++ ")")]
    else
      let declared := positionsInOrder.filter fun p => (policy.get? p.text).isSome
      let placements ← checkEach (fun _ => buildPlacementAt policy path) 0 declared
      return ⟨placements⟩

/-! ## Evaluators and scopes -/

/-- `_build_evaluation_basis`. -/
def buildEvaluationBasis (raw : Value String) (path : String) : Load PaaEvaluationBasis := do
  let basis ← requireMapping raw "evaluation_basis" path
  requireKeys basis ["kind", "ref"] "evaluation_basis" path
  let kind ← requireText (← subscript basis "kind")
    s!"{path}: evaluation_basis 'kind' must be a non-empty string"
  let ref ← requireText (← subscript basis "ref")
    s!"{path}: evaluation_basis 'ref' must be a non-empty string"
  return ⟨kind, ref⟩

/-- `_build_evaluator`. -/
def buildEvaluator (raw : Value String) (path : String) (registry : List ProducerRegistration) :
    Load PaaEvaluator := do
  let evaluator ← requireMapping raw "evaluator entry" path
  requireKeys evaluator ["property", "target", "technique", "evaluation_basis", "epistemic_status",
    "version", "authority"] "evaluator entry" path
  let field key := do
    requireText (← subscript evaluator key) s!"{path}: evaluator {pyRepr key} must be a non-empty string"
  let property ← field "property"
  let target ← field "target"
  let technique ← field "technique"
  let epistemicStatus ← field "epistemic_status"
  let authority ← field "authority"
  let version ← field "version"
  let basis ← buildEvaluationBasis (← subscript evaluator "evaluation_basis") path
  let built := ⟨property, target, technique, basis, epistemicStatus, version, authority⟩
  match resolveProducer built registry with
  | some _ => return built
  | none => refuse [.text (s!"{path}: evaluator {pyRepr property} ({target}/{technique}/" ++
      s!"{basis.kind}:{basis.ref}/{epistemicStatus} v{version}, {authority}) does not resolve " ++
      "against the supplied producer registry")]

/-- The loop of `_build_scopes`. -/
def readScopes (path : String) : List String → List (Value String) → Load (List String)
  | _, [] => .ok []
  | seen, v :: l => do
    let scope ← requireText v s!"{path}: 'scopes' entries must be non-empty strings"
    if scope ∈ seen then
      refuse [.text s!"{path}: 'scopes' must not contain duplicates: {pyRepr scope}"]
    else
      let scopes ← readScopes path (scope :: seen) l
      return scope :: scopes

/-- `_build_scopes`: `None` where the key is absent. -/
def buildScopes (task : Members String) (path : String) : Load (Option (List String)) :=
  match task.get? "scopes" with
  | none => .ok none
  | some raw => do
    let scopesRaw ← requireItems raw s!"{path}: 'scopes' must be a non-empty list"
    return some (← readScopes path [] scopesRaw)

/-! ## Cross-field rules -/

/-- `PaaPositionPolicy.__getitem__`. -/
def PaaPositionPolicy.placement (p : PaaPositionPolicy) (position : AutonomyPosition) :
    Load PaaPlacement :=
  match p.placement? position with
  | some placement => .ok placement
  | none => .error (.keyError position.text)

/-- The indices of the declared evaluators that a selector matches. -/
def matchingEvaluators (s : PaaEvaluatorSelector) (evaluators : List PaaEvaluator) : List ℕ :=
  (evaluators.zipIdx.filter (s.matches ·.1)).map (·.2)

/-- `_validate_placement_overrides` at one position: `claimed` maps an evaluator to the override that
selects it. -/
def validateOverrides (evaluators : List PaaEvaluator) (path : String)
    (position : AutonomyPosition) (default : PositionPolicyMode) :
    List (ℕ × ℕ) → ℕ → List PaaPlacementOverride → Load Unit
  | _, _, [] => .ok ()
  | claimed, index, override :: overrides =>
    let place := s!"{path}: position_policy {pyRepr position.text} overrides/{index.repr}"
    let pointer := s!"/position_policy/{position.text}/overrides/{index.repr}"
    match matchingEvaluators override.selector evaluators with
    | [] => refuseRule s!"{place} selector matches no declared evaluator"
        .overrideMatchesNoEvaluator s!"{pointer}/selector"
    | [i] =>
      let claimant := (claimed.lookup i).getD index
      if claimant ≠ index then
        refuseRule (s!"{place} selector selects the evaluator already overridden at " ++
          s!"{position.text} by overrides/{claimant.repr}") .overrideDuplicate s!"{pointer}/selector"
      else if override.placement = default then
        refuseRule (s!"{place} placement {pyRepr override.placement.text} equals the " ++
          s!"{position.text} default; remove the override or change its placement")
          .overrideRedundant s!"{pointer}/placement"
      else validateOverrides evaluators path position default ((i, index) :: claimed) (index + 1)
        overrides
    | selected => refuseRule (s!"{place} selector matches {selected.length.repr} declared " ++
        "evaluators; add 'version' to disambiguate") .overrideAmbiguous s!"{pointer}/selector"

/-- `_validate_placement_overrides`. -/
def validatePlacementOverrides (d : PaaTaskDeclaration) (path : String) :
    List AutonomyPosition → Load Unit
  | [] => .ok ()
  | position :: positions => do
    let placement ← d.positionPolicy.placement position
    validateOverrides d.evaluators path position placement.default [] 0 placement.overrides
    validatePlacementOverrides d path positions

/-- One transition in `_validate_semantics`. -/
def validateTransition (policy : PaaPositionPolicy) (path name : String)
    (fromPosition toPosition : AutonomyPosition) : Load Unit :=
  let undeclared edge (position : AutonomyPosition) :=
    refuseRule (s!"{path}: {name}.{edge} {pyRepr position.text} is not declared in " ++
      s!"position_policy (declared: {pyReprList (policy.declaredPositions.map (·.text))})")
      .transitionPositionNotInPolicy s!"/{name}/{edge}"
  if fromPosition = toPosition then
    refuseRule s!"{path}: {name}.from and {name}.to are both {pyRepr fromPosition.text}"
      .transitionSamePosition s!"/{name}"
  else if !policy.declares fromPosition then undeclared "from" fromPosition
  else if !policy.declares toPosition then undeclared "to" toPosition
  else .ok ()

/-- `_validate_semantics`. -/
def validateSemantics (d : PaaTaskDeclaration) (path : String) : Load Unit := do
  let policy := d.positionPolicy
  if !policy.declares d.initialPosition then
    refuseRule (s!"{path}: initial_position {pyRepr d.initialPosition.text} is not declared in " ++
      s!"position_policy (declared: {pyReprList (policy.declaredPositions.map (·.text))})")
      .initialPositionNotInPolicy "/initial_position"
  else
    validateTransition policy path "promotion" d.promotion.fromPosition d.promotion.toPosition
    validateTransition policy path "demotion" d.demotion.fromPosition d.demotion.toPosition
    validatePlacementOverrides d path policy.declaredPositions

/-- The fields of a declaration, before the cross-field rules. -/
def buildFields (raw : Value String) (path : String) (registry : List ProducerRegistration) :
    Load PaaTaskDeclaration := do
  let taskRaw ← requireMapping raw "declaration" path
  requireKeys taskRaw ["task", "version", "deployment", "initial_position", "evaluators",
    "position_policy", "promotion", "demotion"] "declaration" path
  let task ← requireText (← subscript taskRaw "task") s!"{path}: 'task' must be a non-empty string"
  let version ← requirePositive (← subscript taskRaw "version")
    s!"{path}: 'version' must be a positive integer"
  let deployment ← requireOneOf Deployment.ofText? (← subscript taskRaw "deployment")
    s!"{path}: unsupported deployment " (mustBeOneOf ["active", "shadow", "disabled"])
  let evaluatorsRaw ← requireItems (← subscript taskRaw "evaluators")
    s!"{path}: 'evaluators' must be a non-empty list"
  let initialPosition ← requirePosition taskRaw "initial_position" "declaration" path
  let evaluators ← checkEach (fun _ e => buildEvaluator e path registry) 0 evaluatorsRaw
  let positionPolicy ← buildPositionPolicy (← subscript taskRaw "position_policy") path
  let promotion ← buildPromotion (← subscript taskRaw "promotion") path
  let demotion ← buildDemotion (← subscript taskRaw "demotion") path
  let scopes ← buildScopes taskRaw path
  return ⟨task, version, deployment, initialPosition, evaluators, positionPolicy, promotion,
    demotion, scopes⟩

/-- `_build_declaration`. -/
def buildDeclaration (raw : Value String) (path : String) (registry : List ProducerRegistration) :
    Load PaaTaskDeclaration := do
  let declaration ← buildFields raw path registry
  validateSemantics declaration path
  return declaration

end PaaRuntime
