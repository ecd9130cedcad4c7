import GraphReasoner.Graph.Indexed

/-!
# Degree centrality

The degree of a node is the number of relations that touch it, a relation from a node to itself
counting at both ends. Its score is the degree over the number of other nodes. Nodes are ranked by
score, greatest first, and then by identifier.

* `GraphReasoner.Graph.centrality` – the ranking of all nodes;
* `GraphReasoner.Graph.centralNeighbors` – the ranking of the neighbors of one node;
* `GraphReasoner.IndexedGraph.centrality`, `GraphReasoner.IndexedGraph.centralNeighbors` – the same
  in a graph with indices, where the degrees are the lengths of the lists of edges at a node.
-/

namespace GraphReasoner

/-- The degrees of a node. -/
structure Centrality (S : Type) where
  id : String
  /-- The number of relations that enter the node. -/
  inDegree : Nat
  /-- The number of relations that leave the node. -/
  outDegree : Nat
  /-- The degree over the number of other nodes; zero for a single node. -/
  score : S

namespace Centrality

variable {S : Type} [Scalar S]

/-- Whether one scored node is ranked before another or level with it: the greater score first, then
the smaller identifier. -/
def ranked (a b : String × S) : Bool :=
  match Scalar.descending a.2 b.2 with
  | .lt => true
  | .gt => false
  | .eq => a.1 ≤ b.1

end Centrality

namespace Graph

variable {S : Type} [Scalar S]

/-- The degrees of one node. -/
def degrees (g : Graph S) (id : String) : Centrality S :=
  let entering := (g.entering id).length
  let leaving := (g.leaving id).length
  { id := id
    inDegree := entering
    outDegree := leaving
    score :=
      if 1 < g.nodeCount then ((entering + leaving : Nat) : S) / ((g.nodeCount - 1 : Nat) : S)
      else 0.0 }

/-- Every node with its degrees, ranked. -/
def centrality (g : Graph S) : List (Centrality S) :=
  (g.entities.map fun e => g.degrees e.id).mergeSort fun a b =>
    Centrality.ranked (a.id, a.score) (b.id, b.score)

/-- The scores by identifier. -/
def centralityTable (g : Graph S) : Table S :=
  Table.ofList (g.centrality.map fun c => (c.id, c.score))

/-- The first `k` of the neighbors of a node, ranked. -/
def centralNeighbors (g : Graph S) (id : String) (k : Nat) : List (String × S) :=
  let scores := g.centralityTable
  let scored := (g.neighbors id).map fun n => (n, (scores.get? n).getD 0.0)
  (scored.mergeSort Centrality.ranked).take k

end Graph

namespace IndexedGraph

variable {S : Type} [Scalar S]

/-- The degrees of a node that is one of so many. -/
def Node.degrees (count : Nat) (node : Node S) : Centrality S :=
  let entering := node.entering.length
  let leaving := node.leaving.length
  { id := node.entity.id
    inDegree := entering
    outDegree := leaving
    score :=
      if 1 < count then ((entering + leaving : Nat) : S) / ((count - 1 : Nat) : S) else 0.0 }

/-- Every node with its degrees, ranked. -/
def centrality (g : IndexedGraph S) : List (Centrality S) :=
  (g.nodes.toList.map (Node.degrees g.nodes.size)).mergeSort fun a b =>
    Centrality.ranked (a.id, a.score) (b.id, b.score)

/-- The scores by identifier. -/
def centralityTable (g : IndexedGraph S) : Table S :=
  Table.ofList (g.centrality.map fun c => (c.id, c.score))

/-- The first `k` of the neighbors of a node, ranked. -/
def centralNeighbors (g : IndexedGraph S) (id : String) (k : Nat) : List (String × S) :=
  let scores := g.centralityTable
  let scored := (g.neighbors id).map fun n => (n, (scores.get? n).getD 0.0)
  (scored.mergeSort Centrality.ranked).take k

end IndexedGraph

end GraphReasoner
