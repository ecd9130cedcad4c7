import GraphReasoner.Digest.Sha256
import GraphReasoner.Query.Mention
import GraphReasoner.Query.Settings

/-!
# Plans

A plan says how a question would be answered: its steps, in order, each with a cost. The search
carries the structural cost, which depends on the shape of the graph; every other step has a fixed
one. A plan costs the sum of its steps, less a benefit when the answer is stored already, and never
less than a tenth.

* `GraphReasoner.Query.planSteps` – the steps of a question;
* `GraphReasoner.Query.plan` – the plan.
-/

namespace GraphReasoner.Query

/-- What a step does. -/
inductive StepKind
  | cacheCheck
  | entityValidation
  | pathSearch
  | pathRanking
  | neighborExpansion
  | neighborFiltering
  | subgraphExtraction
  | subgraphOptimization
  | entitySearch
  | resultProcessing
  | cacheUpdate
deriving DecidableEq, Repr, Inhabited

namespace StepKind

/-- Every kind with its name. -/
def named : List (String × StepKind) :=
  [("cache_check", cacheCheck), ("entity_validation", entityValidation),
    ("path_search", pathSearch), ("path_ranking", pathRanking),
    ("neighbor_expansion", neighborExpansion), ("neighbor_filtering", neighborFiltering),
    ("subgraph_extraction", subgraphExtraction), ("subgraph_optimization", subgraphOptimization),
    ("entity_search", entitySearch), ("result_processing", resultProcessing),
    ("cache_update", cacheUpdate)]

/-- The name of a kind. -/
def name (k : StepKind) : String :=
  ((named.find? fun e => e.2 == k).map Prod.fst).getD ""

/-- The cost of a step before any structural cost. -/
def fixedCost {S : Type} [Scalar S] : StepKind → S
  | cacheCheck | cacheUpdate => 0.1
  | entityValidation | pathRanking | neighborFiltering | resultProcessing => 0.2
  | subgraphOptimization => 0.3
  | neighborExpansion => 0.4
  | pathSearch => 0.5
  | subgraphExtraction => 0.6
  | entitySearch => 0.0

end StepKind

/-- A step of a plan. -/
structure PlanStep (S : Type) where
  kind : StepKind
  description : String
  cost : S
  parameters : Properties S

/-- A plan for one question. -/
structure Plan (S : Type) where
  kind : Kind
  steps : List (PlanStep S)
  /-- The structural cost, carried by the search. -/
  baseCost : S
  /-- The cost of the whole plan. -/
  cost : S
  /-- Whether the answer is stored already. -/
  cached : Bool

/-- The key under which the answer to a text is stored. -/
def answerKey (text : String) : String :=
  Digest.key "nlq" text.toUTF8.toList

variable {S : Type} [Scalar S]

/-- The structural cost of a question. -/
def baseCost (settings : PlannerSettings S) (g : Graph S) (q : Question) : S :=
  match q.kind with
  | .path => (g.nodeCount : S) * 0.4 + (q.mentions.length : S) * 0.3
  | .neighbors => g.averageDegree * 0.3 + (settings.neighborDepth : S) * 0.4
  | .subgraph => (g.nodeCount : S) * 0.5 + g.density * 0.3
  | .general => 1.0

/-- A step with its fixed cost. -/
def step (kind : StepKind) (description : String) (parameters : List (String × Value S)) :
    PlanStep S :=
  ⟨kind, description, kind.fixedCost, Properties.ofList parameters⟩

/-- A step that carries the structural cost as well. -/
def searchStep (kind : StepKind) (description : String) (parameters : List (String × Value S))
    (base : S) : PlanStep S :=
  { step kind description parameters with cost := kind.fixedCost + base }

/-- The steps that search, by the kind of the question. -/
def searchSteps (settings : PlannerSettings S) (q : Question) (base : S) : List (PlanStep S) :=
  match q.kind with
  | .path =>
    [searchStep .pathSearch "enumerate simple paths"
        [("max_length", .ofNat settings.maxPathLength)] base,
      step .pathRanking "rank paths" [("criteria", .ofTexts ["length", "confidence"])]]
  | .neighbors =>
    [searchStep .neighborExpansion "expand neighborhood"
        [("depth", .ofNat settings.neighborDepth)] base,
      step .neighborFiltering "filter by relation type"
        [("relation_types", .ofTexts q.relationKinds)]]
  | .subgraph =>
    [searchStep .subgraphExtraction "extract connecting subgraph"
        [("include_attributes", .bool true)] base,
      step .subgraphOptimization "prune the subgraph" [("remove_redundant", .bool true)]]
  | .general => [searchStep .entitySearch "match entities and their neighbors" [] base]

/-- The steps of a question, given the key of its answer. -/
def planSteps (settings : PlannerSettings S) (q : Question) (key : String) (base : S) :
    List (PlanStep S) :=
  [step .cacheCheck "look up a cached result" [("cache_key", .text key)],
    step .entityValidation "resolve entity mentions" [("entities", .ofTexts q.mentionTexts)]] ++
  searchSteps settings q base ++
  [step .resultProcessing "assemble the result" [], step .cacheUpdate "store the result" []]

/-- What a stored answer changes about the cost. -/
def storedBenefit (kind : Kind) : S :=
  match kind with
  | .subgraph => 0.0 - 0.4
  | .path | .neighbors | .general => 0.0 - 0.5

/-- The least cost of a plan. -/
def leastCost : S := 0.1

/-- The plan of a question, given the key of its answer and whether it is stored. -/
def plan (settings : PlannerSettings S) (g : Graph S) (q : Question) (key : String)
    (cached : Bool) : Plan S :=
  let base := baseCost settings g q
  let steps := planSteps settings q key base
  let total := Scalar.sum (steps.map PlanStep.cost)
  { kind := q.kind
    steps
    baseCost := base
    cost := Scalar.greater (total + if cached then storedBenefit q.kind else 0.0) leastCost
    cached }

/-- A step as a document. -/
def PlanStep.toJson (s : PlanStep S) : Json S :=
  .object [("kind", .string s.kind.name), ("description", .string s.description),
    ("estimated_cost", .float s.cost), ("parameters", s.parameters.toJson)]

/-- A plan as a document, given how many seconds planning took. -/
def Plan.toJson (p : Plan S) (elapsed : S) : Json S :=
  .object [("query_type", .string p.kind.name), ("steps", .array (p.steps.map PlanStep.toJson)),
    ("base_cost", .float p.baseCost), ("estimated_cost", .float p.cost),
    ("cache_hits", .int (if p.cached then 1 else 0)), ("planning_time", .float elapsed)]

end GraphReasoner.Query
