import GraphReasoner.Graph.Store

/-!
# Simple paths

A simple path follows an edge at each step and visits no node twice. Enumeration walks depth first
and takes the nodes that can come next in the order of a given function, so paths come in
lexicographic order of that order. A bound on the number of edges keeps it finite even on a graph
with cycles, and no path leads from a node to itself.

The search knows nothing of graphs: `GraphReasoner.Path.simplePaths` works over any function that
lists the nodes after a node, and serves the knowledge graph and the layers above it alike.
-/

namespace GraphReasoner

namespace Path

variable {α : Type} [DecidableEq α]

/-- The ways to go on from `node` to `target` in at most so many edges, given the nodes already
visited. -/
def ways (next : α → List α) (target : α) : Nat → List α → α → List (List α)
  | 0, _, _ => []
  | hops + 1, visited, node =>
    (next node).flatMap fun v =>
      if v ∈ visited then []
      else if v = target then [[v]]
      else (ways next target hops (v :: visited) v).map (v :: ·)

/-- Every simple path from `source` to `target` of at least one and at most `hops` edges. -/
def simplePaths (next : α → List α) (source target : α) (hops : Nat) : List (List α) :=
  if source = target then []
  else (ways next target hops [source] source).map (source :: ·)

/-- The consecutive pairs of a list. -/
def pairs {β : Type} (path : List β) : List (β × β) :=
  path.zip (path.drop 1)

end Path

namespace Graph

variable {S : Type}

/-- The entities that a relation leads to, each once, in the order of the graph. -/
def nextNodes (g : Graph S) (id : String) : List String :=
  let targets := g.successors id
  (g.entities.map Entity.id).filter fun other => targets.contains other

/-- The simple paths between two entities, as lists of identifiers; none if one is not in
the graph. -/
def simplePaths (g : Graph S) (source target : String) (hops : Nat) : List (List String) :=
  if g.hasEntity source && g.hasEntity target then
    Path.simplePaths g.nextNodes source target hops
  else []

end Graph

end GraphReasoner
