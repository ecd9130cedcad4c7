import GraphReasoner.Graph.Store

/-!
# Walks

A walk leaves an entity along the relations that are stored, oldest relation first, and never comes
back to an entity it has visited. Each walk of bounded length whose confidence, the geometric mean
of its relations', reaches a floor yields one relation from its start to its end. The search goes on
past walks that do not reach the floor, since a longer walk may. Parallel relations make different
walks.

A search keeps the walk it is on, and room for the longest one is set aside beforehand. More room
than can be asked for at once stops the program, however short the walks are. Memory that is not
there, though it can be asked for, is left out, here as everywhere.

* `GraphReasoner.Graph.walks` – the walks from an entity, depth first, a walk before its extensions;
* `GraphReasoner.Graph.explore` – the relations that they yield;
* `GraphReasoner.Graph.explore?` – what comes of the search for them, which may stop the program.
-/

namespace GraphReasoner

variable {S : Type}

namespace Graph

/-- The ways to go on from an entity along at most so many relations, given the entities visited. -/
def walksFrom (g : Graph S) : Nat → List String → String → List (List (Record S))
  | 0, _, _ => []
  | hops + 1, visited, id =>
    (g.records.filter fun r => r.source == id).flatMap fun r =>
      if visited.contains r.target then []
      else [r] :: (walksFrom g hops (r.target :: visited) r.target).map (r :: ·)

/-- The walks of at least one and at most `hops` relations from an entity. -/
def walks (g : Graph S) (start : String) (hops : Nat) : List (List (Record S)) :=
  g.walksFrom hops [start] start

variable [Scalar S]

/-- The confidence of a walk. -/
def walkConfidence (walk : List (Record S)) : S :=
  geometricMean (walk.map Record.confidence)

/-- The relation that a walk yields, of the type of its last step. -/
def concludeWalk (g : Graph S) (start : Entity S) (walk : List (Record S)) :
    Option (Relation S) := do
  let last ← walk.getLast?
  let target ← g.entity? last.target
  let properties := Properties.ofList
    [("inferred", .bool true), ("inference", .text "multi_hop"),
      ("path_length", .ofNat walk.length),
      ("intermediate_nodes", .ofTexts (walk.dropLast.map Record.target))]
  return Relation.derived start target last.kind (walkConfidence walk) properties

/-- The most bytes that can be asked for at once, `2 ^ 63 - 1`. -/
def greatestRoom : Nat := 9223372036854775807

/-- The bytes that an edge takes on a path. -/
def edgeRoom : Nat := 4

/-- Room for a path of so many edges can be asked for. -/
def RoomFor (hops : Nat) : Prop :=
  edgeRoom * hops ≤ greatestRoom

instance (hops : Nat) : Decidable (RoomFor hops) :=
  inferInstanceAs (Decidable (_ ≤ _))

/-- The relations that the walks from an entity yield; none if it is not in the graph. -/
def explore (g : Graph S) (start : String) (hops : Nat) (floor : S) : List (Relation S) :=
  match g.entity? start with
  | none => []
  | some entity =>
    ((g.walks start hops).filter fun walk => floor ≤ walkConfidence walk).filterMap
      (g.concludeWalk entity)

/-- What comes of the search for the walks from an entity. There is no outcome when the program
stops, which it does for lack of room, but not before the entity is found. -/
def explore? (g : Graph S) (start : String) (hops : Nat) (floor : S) :
    Option (List (Relation S)) :=
  if g.hasEntity start ∧ ¬RoomFor hops then none else some (g.explore start hops floor)

end Graph

end GraphReasoner
