import GraphReasoner.Graph.BreadthFirst
import GraphReasoner.Graph.Indexed
import GraphReasoner.Graph.Neighborhood

/-!
# Searching neighborhoods

In a graph with indices a neighborhood is searched with a queue of nodes, which are named by their
places. All seeds that are in the graph are marked before the search begins, and a seed that is
given twice is in the queue twice. The edges at a node are those that leave it and then those that
enter it, newest first, as far as their type is allowed; a loop is among them twice.

* `GraphReasoner.IndexedGraph.neighborhood` – what a search finds.
-/

namespace GraphReasoner

namespace IndexedGraph

open BreadthFirst (Plan State)

variable {S : Type}

/-- The edges at a node that have an allowed type, outgoing before incoming. -/
def edgesAt (g : IndexedGraph S) (kinds : List String) (place : Nat) : List Nat :=
  (g.leavingAt place ++ g.enteringAt place).filter fun edge =>
    g.edges[edge]?.any fun e => kinds.isEmpty || kinds.contains e.kind

/-- How a neighborhood is searched. -/
def neighborhoodPlan (g : IndexedGraph S) (kinds : List String) (depth : Nat) : Plan Nat Nat where
  ends? edge := g.edges[edge]?.map fun e => (e.source, e.target)
  items := g.edgesAt kinds
  reach := depth

/-- The search at its seeds. -/
def neighborhoodStart (g : IndexedGraph S) (seeds : List String) : State Nat Nat :=
  let known := seeds.filterMap g.place?
  ⟨known.map fun place => (place, 0), known, [], [], 0⟩

/-- The nodes within a distance of some nodes, through relations of some types in
either direction. -/
def neighborhood (g : IndexedGraph S) (seeds : List String) (depth : Nat) (kinds : List String) :
    Neighborhood S :=
  let found := (g.neighborhoodPlan kinds depth).run (g.neighborhoodStart seeds)
  { discovered := found.discovered.filterMap g.idAt?
    relations := found.followed.filterMap g.relationAt?
    depth := found.depth }

end IndexedGraph

end GraphReasoner
