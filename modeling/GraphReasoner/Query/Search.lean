import GraphReasoner.Graph.Neighborhood
import GraphReasoner.Graph.Path
import GraphReasoner.Query.Answer
import GraphReasoner.Query.Mention
import GraphReasoner.Query.Settings

/-!
# Searching the graph

Each kind of question has its search, and each search its own measure of confidence:

* `GraphReasoner.Graph.findPaths` – simple paths between two groups of entities; five paths make
  full confidence;
* `GraphReasoner.Graph.findNeighbors` – breadth-first search; ten nodes for each unit of depth make
  full confidence;
* `GraphReasoner.Graph.subgraphOf` – simple paths between all pairs of some entities; the mean of
  the share of entities known and the density of what is found;
* `GraphReasoner.Graph.touchingSearch` – the relations that touch some entities; the mean of the
  share of entities known and the share of types found.

`GraphReasoner.Graph.answer` chooses the search by the kind of the question.
-/

namespace GraphReasoner

open GraphReasoner.Query
open GraphReasoner.Time (Instant)

variable {S : Type} [Scalar S]

namespace Graph

/-- The nodes of some identifiers, as far as they are in the graph. -/
def answerNodes (g : Graph S) (ids : List String) : List (AnswerNode S) :=
  (ids.filterMap g.entity?).map AnswerNode.ofEntity

/-- The answer that some paths make up: their nodes, and every relation along their steps, each
once. -/
def answerOfPaths (g : Graph S) (kind : Kind) (paths : List (List String)) (confidence : S)
    (now : Instant) : Answer S :=
  let steps := (paths.flatMap Path.pairs).eraseDups
  { Answer.empty kind now with
    nodes := g.answerNodes paths.flatten.eraseDups
    edges := (steps.flatMap fun (u, v) => g.between u v).map AnswerEdge.ofRelation
    paths := paths
    confidence := confidence }

/-- The share of some identifiers that are in the graph; zero for none. -/
def knownShare (g : Graph S) (ids : List String) : S :=
  if ids.isEmpty then 0.0 else ((ids.filter g.hasEntity).length : S) / (ids.length : S)

/-- The simple paths from every source to every other target. -/
def findPaths (g : Graph S) (sources targets : List String) (hops : Nat) (now : Instant) :
    Answer S :=
  let paths := sources.flatMap fun s => targets.flatMap fun t =>
    if s == t then [] else g.simplePaths s t hops
  g.answerOfPaths .path paths (Scalar.lesser ((paths.length : S) / 5.0) 1.0) now

/-- The entities within a distance of some entities. -/
def findNeighbors (g : Graph S) (seeds kinds : List String) (depth : Nat) (now : Instant) :
    Answer S :=
  let known := seeds.filter g.hasEntity
  if known.isEmpty then Answer.empty .neighbors now
  else
    let depth := max depth 1
    let found := g.neighborhood known depth kinds
    { Answer.empty .neighbors now with
      nodes := g.answerNodes (known ++ found.discovered)
      edges := found.relations.map AnswerEdge.ofRelation
      confidence :=
        Scalar.lesser ((found.discovered.length : S) / (10.0 * (depth : S))) 1.0 }

/-- The joined ordered pairs among the edges of an answer as a share of all pairs of its nodes. -/
def edgeDensity (nodes : Nat) (edges : List (AnswerEdge S)) : S :=
  if nodes < 2 then 0.0
  else
    let joined := (edges.map fun e => (e.source, e.target)).eraseDups
    (joined.length : S) / ((nodes * (nodes - 1) : Nat) : S)

/-- The simple paths in both directions between the pairs of a list. -/
def pathsAmong (g : Graph S) (hops : Nat) : List String → List (List String)
  | [] => []
  | a :: rest =>
    (rest.flatMap fun b => g.simplePaths a b hops ++ g.simplePaths b a hops) ++
      pathsAmong g hops rest

/-- The subgraph that the paths between some entities span, given the share of entities known. -/
def subgraph (g : Graph S) (ids : List String) (hops : Nat) (coverage : S) (now : Instant) :
    Answer S :=
  let paths := g.pathsAmong hops ids
  if paths.isEmpty then Answer.empty .subgraph now
  else
    let a := g.answerOfPaths .subgraph paths 0.0 now
    let density := edgeDensity a.nodes.length a.edges
    { a with confidence := Scalar.clampUnit ((coverage + density) / 2.0) }

/-- The subgraph that the paths between some entities span. -/
def subgraphOf (g : Graph S) (ids : List String) (hops : Nat) (now : Instant) : Answer S :=
  g.subgraph ids hops (g.knownShare ids) now

/-- The nodes and relations met so far by a search around entities. -/
structure Touched (S : Type) where
  nodes : List String
  relations : List (Relation S)

/-- Adds the relations that touch an entity and have an allowed type, each once, with their other
ends. -/
def touch (g : Graph S) (kinds : List String) (t : Touched S) (id : String) : Touched S :=
  (g.outgoing id ++ g.incoming id).foldl (fun t r =>
    if !kinds.isEmpty && !kinds.contains r.kind then t
    else if t.relations.any fun other => other.triple == r.triple then t
    else
      let other := if r.source.id == id then r.target.id else r.source.id
      { nodes := if t.nodes.contains other then t.nodes else t.nodes ++ [other]
        relations := t.relations ++ [r] }) t

/-- The relations that touch some entities, given the share of entities known. -/
def touchingAnswer (g : Graph S) (ids kinds : List String) (coverage : S) (now : Instant) :
    Answer S :=
  let known := ids.filter g.hasEntity
  if known.isEmpty then Answer.empty .general now
  else
    let t := known.foldl (g.touch kinds) ⟨known, []⟩
    let wanted := kinds.eraseDups
    let found := wanted.filter fun k => t.relations.any fun r => r.kind == k
    let kindCoverage : S :=
      if wanted.isEmpty then 0.0 else (found.length : S) / (wanted.length : S)
    { Answer.empty .general now with
      nodes := g.answerNodes t.nodes
      edges := t.relations.map AnswerEdge.ofRelation
      confidence := Scalar.clampUnit ((coverage + kindCoverage) / 2.0) }

/-- The relations that touch some entities. -/
def touchingSearch (g : Graph S) (ids kinds : List String) (now : Instant) : Answer S :=
  g.touchingAnswer ids kinds (g.knownShare ids) now

/-- Answers a question by the search of its kind. -/
def answer (g : Graph S) (settings : QuerySettings) (q : Question) (now : Instant) : Answer S :=
  match q.kind with
  | .path =>
    match q.resolved with
    | source :: target :: _ =>
      g.findPaths source.candidates target.candidates settings.pathCutoff now
    | _ => Answer.empty .path now
  | .neighbors => g.findNeighbors q.matchedNodes q.relationKinds settings.neighborDepth now
  | .subgraph => g.subgraph q.matchedNodes settings.subgraphCutoff q.coverage now
  | .general => g.touchingAnswer q.matchedNodes q.relationKinds q.coverage now

end Graph

end GraphReasoner
