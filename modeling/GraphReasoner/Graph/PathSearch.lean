import GraphReasoner.Graph.DepthFirst
import GraphReasoner.Graph.Indexed
import GraphReasoner.Graph.Path

/-!
# Searching simple paths

Nodes are named by their places, and a graph lists the nodes that a node leads to, one as often as
edges lead there. The search takes each of them once, in ascending order
(`GraphReasoner.Path.distinct`). It never goes on from the target, and it goes on from another node
only when there is room for one more step.

* `GraphReasoner.Path.search` – the search through any lists of nodes;
* `GraphReasoner.IndexedGraph.simplePaths` – the search through a graph with indices.
-/

namespace GraphReasoner

namespace Path

open DepthFirst (Plan State)

/-- The nodes of a list, each once, in ascending order. -/
def distinct (nodes : List Nat) : List Nat :=
  nodes.mergeSort.eraseReps

/-- How simple paths to a target are searched. -/
def plan (adjacent : Nat → List Nat) (target hops : Nat) : Plan Nat Nat (List Nat) where
  target? := some
  next node := distinct (adjacent node)
  goesOn node := node != target
  emit path := if path.head? = some target then some path.reverse else none
  room := hops

/-- The search at its source. -/
def start (adjacent : Nat → List Nat) (source : Nat) : State Nat Nat (List Nat) :=
  ⟨[source], [source], [distinct (adjacent source)], []⟩

/-- Every simple path from a source to a target of at least one and at most `hops` steps. -/
def search (adjacent : Nat → List Nat) (source target hops : Nat) : List (List Nat) :=
  if source = target ∨ hops = 0 then []
  else ((plan adjacent target hops).run (start adjacent source)).found

end Path

namespace IndexedGraph

variable {S : Type}

/-- The nodes that the edges from a node lead to, as often as they do. -/
def adjacent (g : IndexedGraph S) (place : Nat) : List Nat :=
  g.targets (g.leavingAt place)

/-- The simple paths between two entities, as lists of identifiers; none if one is not in
the graph. -/
def simplePaths (g : IndexedGraph S) (source target : String) (hops : Nat) : List (List String) :=
  match g.place? source, g.place? target with
  | some source, some target =>
    (Path.search g.adjacent source target hops).map (List.filterMap g.idAt?)
  | _, _ => []

end IndexedGraph

end GraphReasoner
