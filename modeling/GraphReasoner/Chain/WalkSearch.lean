import GraphReasoner.Chain.Walk
import GraphReasoner.Graph.DepthFirst
import GraphReasoner.Graph.Indexed

/-!
# Searching walks

The walks from an entity are searched depth first along the edges of a graph with indices, those at
a node in ascending order. Every walk is looked at when its last edge is taken, and yields a
relation if its confidence reaches the floor. The search goes on as long as there is room for one
more edge, whatever the confidence is. Room for as many edges as a walk may have is set aside before
the first step (`GraphReasoner.Graph.RoomFor`).

* `GraphReasoner.IndexedGraph.explore?` – the relations that the walks yield, if the search can
  begin.
-/

namespace GraphReasoner

namespace IndexedGraph

open DepthFirst (Plan State)

variable {S : Type}

/-- The edges that leave a node, oldest first. -/
def departures (g : IndexedGraph S) (place : Nat) : List Nat :=
  (g.leavingAt place).mergeSort

variable [Scalar S]

/-- The relation that a walk yields if its confidence reaches a floor. The walk is given by its
edges, newest first. -/
def concludeWalk (g : IndexedGraph S) (start : Entity S) (floor : S) (path : List Nat) :
    Option (Relation S) := do
  let edge ← g.edges[← path.head?]?
  let target ← g.entityAt? edge.target
  let walk := path.reverse
  let confidence := geometricMean (walk.filterMap fun place => g.edges[place]?.map Edge.confidence)
  if floor ≤ confidence then
    let between := (g.targets walk.dropLast).filterMap g.idAt?
    let properties := Properties.ofList
      [("inferred", .bool true), ("inference", .text "multi_hop"),
        ("path_length", .ofNat walk.length), ("intermediate_nodes", .ofTexts between)]
    return Relation.derived start target edge.kind confidence properties
  else none

/-- How walks are searched. -/
def walkPlan (g : IndexedGraph S) (start : Entity S) (hops : Nat) (floor : S) :
    Plan Nat Nat (Relation S) where
  target? place := g.edges[place]?.map Edge.target
  next := g.departures
  goesOn _ := true
  emit := g.concludeWalk start floor
  room := hops - 1

/-- The search at its start. -/
def walkStart (g : IndexedGraph S) (start : Nat) : State Nat Nat (Relation S) :=
  ⟨[], [start], [g.departures start], []⟩

/-- The relations that the walks from an entity yield, of at least one and at most `hops` edges
each; none if the entity is not in the graph. When there is something to search, room for the path
is set aside first, and if there cannot be so much the program stops without an outcome. -/
def explore? (g : IndexedGraph S) (start : String) (hops : Nat) (floor : S) :
    Option (List (Relation S)) :=
  match g.place? start with
  | none => some []
  | some place =>
    if hops = 0 then some []
    else
      match g.entityAt? place with
      | none => some []
      | some entity =>
        if Graph.RoomFor hops then
          some ((g.walkPlan entity hops floor).run (g.walkStart place)).found
        else none

end IndexedGraph

end GraphReasoner
