import PaaRuntime.DeclarationLoader
import PaaRuntime.Lib.JsonSchema

/-!
# Task documents

What a declaration document says, without the loader: the fields it authors (`AuthoredIn`), the
published schema of its shape (`paa-task.schema.json`), and the published rules across its fields.
-/

namespace PaaRuntime

/-! ## Authored fields -/

/-- The window that a value spells out. -/
def PaaWindow.AuthoredIn (v : Value String) : PaaWindow → Prop
  | .cases size => v.member "kind" = some (.str "cases") ∧ v.member "size" = some (.int size) ∧
      1 ≤ size
  | .duration size => v.member "kind" = some (.str "duration") ∧
      v.member "size" = some (.str size) ∧ size ≠ ""

structure PaaPromotion.AuthoredIn (v : Value String) (p : PaaPromotion) : Prop where
  fromPosition : v.member "from" = some (.str p.fromPosition.text)
  toPosition : v.member "to" = some (.str p.toPosition.text)
  report : v.member "report" = some (.str p.report) ∧ p.report ≠ ""
  window : ∃ w, v.member "window" = some w ∧ p.window.AuthoredIn w
  execution : v.member "execution" = some (.str p.execution.text)

structure PaaDemotion.AuthoredIn (v : Value String) (d : PaaDemotion) : Prop where
  fromPosition : v.member "from" = some (.str d.fromPosition.text)
  toPosition : v.member "to" = some (.str d.toPosition.text)
  trigger : v.member "trigger" = some (.str d.trigger) ∧ d.trigger ≠ ""
  window : ∃ w, v.member "window" = some w ∧ d.window.AuthoredIn w

/-- The version that a selector spells out: none where the key is absent or null. -/
def VersionAuthoredIn (v : Value String) : Option String → Prop
  | none => v.member "version" = none ∨ v.member "version" = some (.scalar .null)
  | some version => v.member "version" = some (.str version) ∧ version ≠ ""

structure PaaEvaluatorSelector.AuthoredIn (v : Value String) (s : PaaEvaluatorSelector) :
    Prop where
  property : v.member "property" = some (.str s.property) ∧ s.property ≠ ""
  technique : v.member "technique" = some (.str s.technique) ∧ s.technique ≠ ""
  version : VersionAuthoredIn v s.version

structure PaaPlacementOverride.AuthoredIn (v : Value String) (o : PaaPlacementOverride) :
    Prop where
  selector : ∃ s, v.member "selector" = some s ∧ o.selector.AuthoredIn s
  placement : v.member "placement" = some (.str o.placement.text)

/-- The placement that a value spells out: a bare mode is a default without overrides. -/
def PaaPlacement.AuthoredIn (v : Value String) (p : PaaPlacement) : Prop :=
  (v = .str p.default.text ∧ p.overrides = []) ∨
    (v.member "default" = some (.str p.default.text) ∧ p.overrides ≠ [] ∧
      ∃ l, v.member "overrides" = some (.list l) ∧
        List.Forall₂ PaaPlacementOverride.AuthoredIn l p.overrides)

/-- The positions under which a mapping has a value, in the order of their texts. -/
def positionsOf (m : Members String) : List AutonomyPosition :=
  positionsInOrder.filter fun p => (m.get? p.text).isSome

/-- The policy that a value spells out, position by position. -/
def PaaPositionPolicy.AuthoredIn (v : Value String) (p : PaaPositionPolicy) : Prop :=
  ∃ m : Members String, v = .dict m ∧ m ≠ [] ∧ (∀ e ∈ m, e.1.isPosition = true) ∧
    List.Forall₂ (fun position e => position = e.1 ∧
      ∃ raw, m.get? position.text = some raw ∧ e.2.AuthoredIn raw) (positionsOf m) p.placements

structure PaaEvaluationBasis.AuthoredIn (v : Value String) (b : PaaEvaluationBasis) : Prop where
  kind : v.member "kind" = some (.str b.kind) ∧ b.kind ≠ ""
  ref : v.member "ref" = some (.str b.ref) ∧ b.ref ≠ ""

structure PaaEvaluator.AuthoredIn (v : Value String) (e : PaaEvaluator) : Prop where
  property : v.member "property" = some (.str e.property) ∧ e.property ≠ ""
  target : v.member "target" = some (.str e.target) ∧ e.target ≠ ""
  technique : v.member "technique" = some (.str e.technique) ∧ e.technique ≠ ""
  epistemicStatus : v.member "epistemic_status" = some (.str e.epistemicStatus) ∧
    e.epistemicStatus ≠ ""
  authority : v.member "authority" = some (.str e.authority) ∧ e.authority ≠ ""
  version : v.member "version" = some (.str e.version) ∧ e.version ≠ ""
  evaluationBasis : ∃ b, v.member "evaluation_basis" = some b ∧ e.evaluationBasis.AuthoredIn b

/-- The scopes that a document declares: none where the key is absent. -/
def ScopesAuthoredIn (v : Value String) : Option (List String) → Prop
  | none => v.member "scopes" = none
  | some l => v.member "scopes" = some (.list (l.map .str)) ∧ l ≠ [] ∧ l.Nodup ∧ "" ∉ l

structure PaaTaskDeclaration.AuthoredIn (v : Value String) (d : PaaTaskDeclaration) : Prop where
  task : v.member "task" = some (.str d.task) ∧ d.task ≠ ""
  version : v.member "version" = some (.int d.version) ∧ 1 ≤ d.version
  deployment : v.member "deployment" = some (.str d.deployment.text)
  initialPosition : v.member "initial_position" = some (.str d.initialPosition.text)
  evaluators : ∃ l, v.member "evaluators" = some (.list l) ∧ l ≠ [] ∧
    List.Forall₂ PaaEvaluator.AuthoredIn l d.evaluators
  positionPolicy : ∃ p, v.member "position_policy" = some p ∧ d.positionPolicy.AuthoredIn p
  promotion : ∃ p, v.member "promotion" = some p ∧ d.promotion.AuthoredIn p
  demotion : ∃ p, v.member "demotion" = some p ∧ d.demotion.AuthoredIn p
  scopes : ScopesAuthoredIn v d.scopes

/-! ## The published schema -/

namespace TaskSchema

open Schema

/-- `minLength: 1`. -/
def text : Schema String := allOf [type [.string], minLength String.length 1]

def oneOfTexts (texts : List String) : Schema String := allOf [type [.string], enum texts]

def autonomyPosition : Schema String := oneOfTexts ["manual", "hitl", "hotl", "autonomous"]

def deployment : Schema String := oneOfTexts ["active", "shadow", "disabled"]

def evaluatorTarget : Schema String := oneOfTexts ["input", "process", "output", "outcome"]

def technique : Schema String := oneOfTexts ["deterministic", "classifier", "llm_judge", "human"]

def evaluationBasis : Schema String := allOf [type [.object], members ["kind", "ref"]
  [("kind", oneOfTexts
      ["invariant", "reference_label", "rubric", "human_gold", "downstream_result"]),
    ("ref", text)]]

def epistemicStatus : Schema String := oneOfTexts ["proxy", "ground_truth"]

def authority : Schema String := oneOfTexts ["advisory", "blocking"]

def positionPolicyValue : Schema String := oneOfTexts ["blocking", "async", "offline"]

def evaluatorSelector : Schema String := allOf [type [.object], members ["property", "technique"]
  [("property", text), ("technique", technique), ("version", text)]]

def override : Schema String := allOf [type [.object], members ["selector", "placement"]
  [("selector", evaluatorSelector), ("placement", positionPolicyValue)]]

def positionPlacement : Schema String := oneOf [positionPolicyValue,
  allOf [type [.object], members ["default", "overrides"]
    [("default", positionPolicyValue),
      ("overrides", allOf [type [.array], minItems 1, items override])]]]

/-- `^P(?!$).+$`, where `.` is no line feed and `$` may stand before a last one. -/
def durationPattern (s : String) : Bool :=
  match s.toList with
  | 'P' :: c :: l => c ≠ '\n' && '\n' ∉ l.dropLast
  | _ => false

def window : Schema String := oneOf [
  allOf [type [.object], members ["kind", "size"]
    [("kind", oneOfTexts ["cases"]), ("size", allOf [type [.integer], minimum 1])]],
  allOf [type [.object], members ["kind", "size"]
    [("kind", oneOfTexts ["duration"]), ("size", allOf [type [.string], pattern durationPattern])]]]

/-- `^[a-z][a-z0-9_]*$`, where `$` may stand before a last line feed. -/
def taskPattern (s : String) : Bool :=
  match s.toList with
  | c :: l => ('a' ≤ c && c ≤ 'z') &&
      (if l.getLast? = some '\n' then l.dropLast else l).all fun c =>
        ('a' ≤ c && c ≤ 'z') || ('0' ≤ c && c ≤ '9') || c = '_'
  | [] => false

def boundary : Schema String := allOf [type [.object], members ["input", "output"]
  [("input", text), ("output", text)]]

def evaluator : Schema String := allOf [type [.object], members
  ["property", "target", "technique", "evaluation_basis", "epistemic_status", "version",
    "authority"]
  [("property", text), ("target", evaluatorTarget), ("technique", technique),
    ("evaluation_basis", evaluationBasis), ("epistemic_status", epistemicStatus),
    ("version", text), ("authority", authority)]]

def positionPolicy : Schema String := allOf [type [.object], minProperties 1, members []
  [("manual", positionPlacement), ("hitl", positionPlacement), ("hotl", positionPlacement),
    ("autonomous", positionPlacement)]]

def promotion : Schema String := allOf [type [.object], members
  ["from", "to", "report", "window", "execution"]
  [("from", autonomyPosition), ("to", autonomyPosition), ("report", text), ("window", window),
    ("execution", oneOfTexts ["operator_approval", "automatic"])]]

def demotion : Schema String := allOf [type [.object], members ["from", "to", "trigger", "window"]
  [("from", autonomyPosition), ("to", autonomyPosition), ("trigger", text), ("window", window)]]

end TaskSchema

open Schema TaskSchema in
/-- `paa-task.schema.json`. -/
def taskSchema : Schema String := allOf [type [.object], members
  ["task", "version", "description", "boundary", "initial_position", "deployment", "evaluators",
    "position_policy", "promotion", "demotion"]
  [("task", allOf [type [.string], pattern taskPattern]),
    ("version", allOf [type [.integer], minimum 1]),
    ("description", text), ("boundary", boundary), ("initial_position", autonomyPosition),
    ("deployment", deployment),
    ("scopes", allOf [type [.array], minItems 1, uniqueItems, items text]),
    ("evaluators", allOf [type [.array], minItems 1, uniqueItems, items evaluator]),
    ("position_policy", positionPolicy), ("promotion", promotion), ("demotion", demotion)]]

/-- The members that the schema types as integers are given as YAML integers. -/
structure IntegersAuthored (v : Value String) : Prop where
  version : ∀ f, v.member "version" ≠ some (.scalar (.float f))
  window : ∀ key ∈ ["promotion", "demotion"], ∀ t w f, v.member key = some t →
    t.member "window" = some w → w.member "size" ≠ some (.scalar (.float f))

/-! ## The published rules -/

/-- The document declares a position. -/
def Declared (v : Value String) (position : String) : Prop :=
  ∃ policy placement, v.member "position_policy" = some policy ∧
    policy.member position = some placement

/-- A selector names an evaluator: equal property and technique, and equal version where given. -/
structure Selects (selector evaluator : Value String) : Prop where
  property : selector.member "property" = evaluator.member "property"
  technique : selector.member "technique" = evaluator.member "technique"
  version : ∀ version, selector.member "version" = some (.str version) →
    evaluator.member "version" = some (.str version)

/-- The placement of a position has the given default, and the given override at an index. -/
def OverrideAt (v : Value String) (position : String) (index : ℕ)
    (default override : Value String) : Prop :=
  ∃ policy placement overrides, v.member "position_policy" = some policy ∧
    policy.member position = some placement ∧ placement.member "default" = some default ∧
    placement.member "overrides" = some (.list overrides) ∧ overrides[index]? = some override

/-- An override selects the declared evaluator at an index. -/
def OverrideSelects (v override : Value String) (i : ℕ) : Prop :=
  ∃ selector evaluators evaluator, override.member "selector" = some selector ∧
    v.member "evaluators" = some (.list evaluators) ∧ evaluators[i]? = some evaluator ∧
    Selects selector evaluator

/-- The seven published rules. -/
structure SemanticRules (v : Value String) : Prop where
  initialPosition : ∀ p, v.member "initial_position" = some (.str p) → Declared v p
  samePosition : ∀ key ∈ ["promotion", "demotion"], ∀ t p q, v.member key = some t →
    t.member "from" = some (.str p) → t.member "to" = some (.str q) → p ≠ q
  positionInPolicy : ∀ key ∈ ["promotion", "demotion"], ∀ edge ∈ ["from", "to"], ∀ t p,
    v.member key = some t → t.member edge = some (.str p) → Declared v p
  matchesSome : ∀ p i default override, OverrideAt v p i default override →
    ∃ e, OverrideSelects v override e
  matchesOne : ∀ p i default override, OverrideAt v p i default override →
    ∀ e e', OverrideSelects v override e → OverrideSelects v override e' → e = e'
  selectedOnce : ∀ p i j default override override', OverrideAt v p i default override →
    OverrideAt v p j default override' → ∀ e, OverrideSelects v override e →
    OverrideSelects v override' e → i = j
  notRedundant : ∀ p i default override, OverrideAt v p i default override →
    override.member "placement" ≠ some default

/-- A rule is broken at the member that some tokens lead to. -/
inductive Breaks (v : Value String) : DeclarationCode → List String → Prop
  | initialPosition {p : String} (h : v.member "initial_position" = some (.str p))
      (hp : ¬ Declared v p) : Breaks v .initialPositionNotInPolicy ["initial_position"]
  | samePosition {key p : String} {t : Value String} (hkey : key ∈ ["promotion", "demotion"])
      (ht : v.member key = some t) (hfrom : t.member "from" = some (.str p))
      (hto : t.member "to" = some (.str p)) : Breaks v .transitionSamePosition [key]
  | positionInPolicy {key edge p : String} {t : Value String}
      (hkey : key ∈ ["promotion", "demotion"]) (hedge : edge ∈ ["from", "to"])
      (ht : v.member key = some t) (hp : t.member edge = some (.str p)) (hd : ¬ Declared v p) :
      Breaks v .transitionPositionNotInPolicy [key, edge]
  | matchesNone {p : String} {i : ℕ} {default override : Value String}
      (h : OverrideAt v p i default override) (hnone : ∀ e, ¬ OverrideSelects v override e) :
      Breaks v .overrideMatchesNoEvaluator ["position_policy", p, "overrides", i.repr, "selector"]
  | ambiguous {p : String} {i e e' : ℕ} {default override : Value String}
      (h : OverrideAt v p i default override) (he : OverrideSelects v override e)
      (he' : OverrideSelects v override e') (hne : e ≠ e') :
      Breaks v .overrideAmbiguous ["position_policy", p, "overrides", i.repr, "selector"]
  | duplicate {p : String} {i j e : ℕ} {default override override' : Value String}
      (h : OverrideAt v p i default override) (h' : OverrideAt v p j default override')
      (hlt : j < i) (he : OverrideSelects v override e) (he' : OverrideSelects v override' e) :
      Breaks v .overrideDuplicate ["position_policy", p, "overrides", i.repr, "selector"]
  | redundant {p : String} {i : ℕ} {default override : Value String}
      (h : OverrideAt v p i default override) (hp : override.member "placement" = some default) :
      Breaks v .overrideRedundant ["position_policy", p, "overrides", i.repr, "placement"]

end PaaRuntime
