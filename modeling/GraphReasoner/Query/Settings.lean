import GraphReasoner.Error
import GraphReasoner.Json.Fields

/-!
# Settings of queries and plans

The bounds of searches are at least one; a planner remembers at least one question, and its
threshold lies in the unit interval.
-/

namespace GraphReasoner

/-- The bounds of searches. -/
structure QuerySettings where
  /-- The greatest number of edges of a path. -/
  pathCutoff : Nat
  /-- The depth of a search for neighbors. -/
  neighborDepth : Nat
  /-- The greatest number of edges between two entities of a subgraph. -/
  subgraphCutoff : Nat
  /-- The lifetime of stored answers in seconds, if it is not that of the cache. -/
  answerLifetime : Option Nat
deriving DecidableEq, Repr

/-- The settings of a planner. -/
structure PlannerSettings (S : Type) where
  /-- The number of questions that are remembered. -/
  historyCapacity : Nat
  /-- What the similarity of a past question has to exceed. -/
  similarityThreshold : S
  /-- The depth that a search for neighbors is priced for. -/
  neighborDepth : Nat
  /-- The greatest path length that a plan names. -/
  maxPathLength : Nat

namespace QuerySettings

/-- The settings that hold when none are given. -/
def default : QuerySettings :=
  ⟨3, 2, 2, none⟩

instance : Inhabited QuerySettings := ⟨default⟩

/-- The first defect, if there is one. -/
def defect? {S : Type} (s : QuerySettings) : Option (SettingsDefect S) :=
  if s.pathCutoff = 0 then some (.zeroBound "query.path_cutoff")
  else if s.neighborDepth = 0 then some (.zeroBound "query.neighbor_depth")
  else if s.subgraphCutoff = 0 then some (.zeroBound "query.subgraph_cutoff")
  else none

/-- Settings as a document. -/
def toJson {S : Type} (s : QuerySettings) : Json S :=
  .object ([("path_cutoff", .int s.pathCutoff), ("neighbor_depth", .int s.neighborDepth),
    ("subgraph_cutoff", .int s.subgraphCutoff)] ++
    Json.written "result_ttl_secs" (fun n => .int (n : Nat)) s.answerLifetime)

/-- Settings from a document, with a default for every field. -/
def ofJson? {S : Type} (dialect : Json.Dialect) (document : Json S) : Option QuerySettings := do
  let fields ← document.fields? dialect
    ["path_cutoff", "neighbor_depth", "subgraph_cutoff", "result_ttl_secs"]
  let pathCutoff ← fields.withDefault "path_cutoff" default.pathCutoff Json.asNat
  let neighborDepth ← fields.withDefault "neighbor_depth" default.neighborDepth Json.asNat
  let subgraphCutoff ← fields.withDefault "subgraph_cutoff" default.subgraphCutoff Json.asNat
  let answerLifetime ← fields.optional "result_ttl_secs" Json.asNat
  return ⟨pathCutoff, neighborDepth, subgraphCutoff, answerLifetime⟩

end QuerySettings

namespace PlannerSettings

variable {S : Type} [Scalar S]

/-- The settings that hold when none are given. -/
def default : PlannerSettings S :=
  ⟨100, 0.3, 2, 3⟩

instance : Inhabited (PlannerSettings S) := ⟨default⟩

instance : BEq (PlannerSettings S) :=
  ⟨fun a b => a.historyCapacity == b.historyCapacity &&
    a.similarityThreshold == b.similarityThreshold && a.neighborDepth == b.neighborDepth &&
    a.maxPathLength == b.maxPathLength⟩

/-- The first defect, if there is one. -/
def defect? (s : PlannerSettings S) : Option (SettingsDefect S) :=
  if s.historyCapacity = 0 then some .noHistory
  else if ¬ Scalar.InUnit s.similarityThreshold then
    some (.similarityOutsideUnit s.similarityThreshold)
  else none

/-- Settings as a document. -/
def toJson (s : PlannerSettings S) : Json S :=
  .object [("history_capacity", .int s.historyCapacity),
    ("similarity_threshold", .float s.similarityThreshold),
    ("neighbor_depth", .int s.neighborDepth), ("max_path_length", .int s.maxPathLength)]

/-- Settings from a document, with a default for every field. -/
def ofJson? (dialect : Json.Dialect) (document : Json S) : Option (PlannerSettings S) := do
  let fields ← document.fields? dialect
    ["history_capacity", "similarity_threshold", "neighbor_depth", "max_path_length"]
  let base : PlannerSettings S := default
  let historyCapacity ← fields.withDefault "history_capacity" base.historyCapacity Json.asNat
  let similarityThreshold ←
    fields.withDefault "similarity_threshold" base.similarityThreshold Json.asNumber
  let neighborDepth ← fields.withDefault "neighbor_depth" base.neighborDepth Json.asNat
  let maxPathLength ← fields.withDefault "max_path_length" base.maxPathLength Json.asNat
  return ⟨historyCapacity, similarityThreshold, neighborDepth, maxPathLength⟩

end PlannerSettings

end GraphReasoner
