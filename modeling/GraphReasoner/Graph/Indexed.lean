import GraphReasoner.Graph.Store

/-!
# A graph with indices

`GraphReasoner.Graph` goes through all its entities and edges for every look-up. Here the same graph
is kept with what makes a look-up short, and each of these is a structure of its own that has to
follow the edges:

| structure | what it is for |
|---|---|
| `GraphReasoner.IndexedGraph.places` | the node of an identifier |
| `GraphReasoner.IndexedGraph.Node.leaving` | the edges from a node, newest first |
| `GraphReasoner.IndexedGraph.Node.entering` | the edges to a node, newest first |
| `GraphReasoner.IndexedGraph.kindPlaces` | the edges of a type, oldest first |
| `GraphReasoner.IndexedGraph.edgeCount` | the number of edges |

Nodes and edges are named by their places, which never change. A new edge is entered everywhere; an
edge that is there already gets a new content in its place, and no index is touched.

`GraphReasoner.IndexedGraph.toGraph` forgets the indices. The measures
(`GraphReasoner.IndexedGraph.density`, `GraphReasoner.IndexedGraph.averageDegree`) take the number
of entities from the index of the identifiers, and the joined pairs from the edges.
-/

namespace GraphReasoner

namespace IndexedGraph

/-- An entity and the places of the edges at it. -/
structure Node (S : Type) where
  entity : Entity S
  /-- The edges that leave the entity, newest first. -/
  leaving : List Nat
  /-- The edges that enter the entity, newest first. -/
  entering : List Nat

/-- An edge between the nodes at two places. -/
structure Edge (S : Type) where
  source : Nat
  target : Nat
  /-- The type of the relation. -/
  kind : String
  confidence : S
  properties : Properties S
  temporal : Option (Bounds S)

/-- The relation of an edge, given its entities. -/
def Edge.between {S : Type} (e : Edge S) (source target : Entity S) : Relation S :=
  ⟨source, target, e.kind, e.confidence, e.properties, e.temporal⟩

/-- An edge with the type and the content of another. -/
def Edge.fill {S : Type} (old e : Edge S) : Edge S :=
  { e with source := old.source, target := old.target }

end IndexedGraph

/-- A directed graph of entities whose edges are typed, with indices. -/
structure IndexedGraph (S : Type) where
  /-- The nodes, oldest first. -/
  nodes : Array (IndexedGraph.Node S)
  /-- The edges, oldest first. -/
  edges : Array (IndexedGraph.Edge S)
  /-- The place of the node of each identifier. -/
  places : Table Nat
  /-- The places of the edges of each type, oldest first. -/
  kindPlaces : Table (List Nat)
  edgeCount : Nat

namespace IndexedGraph

variable {S : Type}

/-- The graph without entities. -/
def empty : IndexedGraph S := ⟨#[], #[], [], [], 0⟩

/-! ### Looking up -/

/-- The place of the node with an identifier. -/
def place? (g : IndexedGraph S) (id : String) : Option Nat :=
  g.places.get? id

/-- The entity of the node at a place. -/
def entityAt? (g : IndexedGraph S) (place : Nat) : Option (Entity S) :=
  g.nodes[place]?.map Node.entity

/-- The identifier of the node at a place. -/
def idAt? (g : IndexedGraph S) (place : Nat) : Option String :=
  (g.entityAt? place).map Entity.id

/-- The entity with an identifier. -/
def entity? (g : IndexedGraph S) (id : String) : Option (Entity S) :=
  (g.place? id).bind g.entityAt?

/-- Whether an identifier is bound. -/
def hasEntity (g : IndexedGraph S) (id : String) : Bool :=
  g.places.contains id

/-- Every entity, oldest first. -/
def entities (g : IndexedGraph S) : List (Entity S) :=
  g.nodes.toList.map Node.entity

/-- The relation of the edge at a place. -/
def relationAt? (g : IndexedGraph S) (place : Nat) : Option (Relation S) := do
  let edge ← g.edges[place]?
  let source ← g.entityAt? edge.source
  let target ← g.entityAt? edge.target
  return edge.between source target

/-- The edges that leave the node at a place, newest first. -/
def leavingAt (g : IndexedGraph S) (place : Nat) : List Nat :=
  (g.nodes[place]?.map Node.leaving).getD []

/-- The edges that enter the node at a place, newest first. -/
def enteringAt (g : IndexedGraph S) (place : Nat) : List Nat :=
  (g.nodes[place]?.map Node.entering).getD []

/-- The edges between the nodes at two places, newest first. -/
def joining (g : IndexedGraph S) (source target : Nat) : List Nat :=
  (g.leavingAt source).filter fun place => g.edges[place]?.any fun e => e.target == target

/-- The edge of one type between the nodes at two places. -/
def joiningOf? (g : IndexedGraph S) (source target : Nat) (kind : String) : Option Nat :=
  (g.joining source target).find? fun place => g.edges[place]?.any fun e => e.kind == kind

/-- The relation with a triple of source, target and type. -/
def relation? (g : IndexedGraph S) (source target kind : String) : Option (Relation S) := do
  let place ← g.joiningOf? (← g.place? source) (← g.place? target) kind
  g.relationAt? place

/-- The relations from one entity to another, newest first. -/
def between (g : IndexedGraph S) (source target : String) : List (Relation S) :=
  match g.place? source, g.place? target with
  | some source, some target => (g.joining source target).filterMap g.relationAt?
  | _, _ => []

/-- The relations of one type, oldest first. -/
def ofKind (g : IndexedGraph S) (kind : String) : List (Relation S) :=
  ((g.kindPlaces.get? kind).getD []).filterMap g.relationAt?

/-- Every relation, oldest first. -/
def relations (g : IndexedGraph S) : List (Relation S) :=
  (List.range g.edges.size).filterMap g.relationAt?

/-- The edges that leave an entity, newest first. -/
def leaving (g : IndexedGraph S) (id : String) : List Nat :=
  ((g.place? id).map g.leavingAt).getD []

/-- The edges that enter an entity, newest first. -/
def entering (g : IndexedGraph S) (id : String) : List Nat :=
  ((g.place? id).map g.enteringAt).getD []

/-- The relations that leave an entity, newest first. -/
def outgoing (g : IndexedGraph S) (id : String) : List (Relation S) :=
  (g.leaving id).filterMap g.relationAt?

/-- The relations that enter an entity, newest first. -/
def incoming (g : IndexedGraph S) (id : String) : List (Relation S) :=
  (g.entering id).filterMap g.relationAt?

/-- The nodes that some edges lead to. -/
def targets (g : IndexedGraph S) (edges : List Nat) : List Nat :=
  edges.filterMap fun place => g.edges[place]?.map Edge.target

/-- The nodes that some edges come from. -/
def sources (g : IndexedGraph S) (edges : List Nat) : List Nat :=
  edges.filterMap fun place => g.edges[place]?.map Edge.source

/-- The identifiers of some nodes, each node once. -/
def identifiers (g : IndexedGraph S) (nodes : List Nat) : List String :=
  nodes.eraseDups.filterMap fun place => (g.entityAt? place).map Entity.id

/-- The targets of the relations that leave an entity, each once, newest first. -/
def successors (g : IndexedGraph S) (id : String) : List String :=
  g.identifiers (g.targets (g.leaving id))

/-- The sources of the relations that enter an entity, each once, newest first. -/
def predecessors (g : IndexedGraph S) (id : String) : List String :=
  g.identifiers (g.sources (g.entering id))

/-- The entities joined to an entity in either direction, each once, successors first. -/
def neighbors (g : IndexedGraph S) (id : String) : List String :=
  g.identifiers (g.targets (g.leaving id) ++ g.sources (g.entering id))

/-- The types of relations that occur, in ascending order. -/
def kinds (g : IndexedGraph S) : List String :=
  g.kindPlaces.keys

/-- The number of entities. -/
def nodeCount (g : IndexedGraph S) : Nat :=
  g.places.length

/-- The graph without its indices. -/
def toGraph (g : IndexedGraph S) : Graph S :=
  ⟨g.entities, g.relations.map Relation.toRecord⟩

/-! ### Growing -/

/-- Adds a node for an entity. -/
def addNode (g : IndexedGraph S) (e : Entity S) : IndexedGraph S :=
  { g with nodes := g.nodes.push ⟨e, [], []⟩, places := g.places.insert e.id g.nodes.size }

/-- Adds an entity. The answer tells whether it is new; a different entity with the same identifier
is refused. -/
def addEntity [BEq S] (g : IndexedGraph S) (e : Entity S) : Result S (Bool × IndexedGraph S) := do
  e.validate
  match g.entity? e.id with
  | none => return (true, g.addNode e)
  | some bound => if bound == e then return (false, g) else throw (.duplicateEntity e.id)

/-- Adds a node for an entity, unless its identifier is bound, and tells where the node is. -/
def ensure (g : IndexedGraph S) (e : Entity S) : IndexedGraph S × Nat :=
  match g.place? e.id with
  | some place => (g, place)
  | none => (g.addNode e, g.nodes.size)

/-- The edge that a relation makes between the nodes at two places. -/
def edgeOf (r : Relation S) (source target : Nat) : Edge S :=
  ⟨source, target, r.kind, r.confidence, r.properties, r.temporal⟩

/-- Adds an edge, and enters it in the indices. -/
def addEdge (g : IndexedGraph S) (e : Edge S) : IndexedGraph S :=
  let place := g.edges.size
  { g with
    nodes := (g.nodes.modify e.source fun node => { node with leaving := place :: node.leaving })
      |>.modify e.target fun node => { node with entering := place :: node.entering }
    edges := g.edges.push e
    kindPlaces := g.kindPlaces.update e.kind [] (· ++ [place])
    edgeCount := g.edgeCount + 1 }

/-- Adds an edge, or gives its content to the edge of its type between its nodes. -/
def putEdge (g : IndexedGraph S) (e : Edge S) : IndexedGraph S :=
  match g.joiningOf? e.source e.target e.kind with
  | some place => { g with edges := g.edges.modify place fun old => old.fill e }
  | none => g.addEdge e

/-- Adds a valid relation, and its entities as far as their identifiers are not bound. -/
def addRelation [Scalar S] (g : IndexedGraph S) (r : Relation S) :
    Result S (IndexedGraph S) := do
  r.validate
  let (g, source) := g.ensure r.source
  let (g, target) := g.ensure r.target
  return g.putEdge (edgeOf r source target)

/-- The graph of a list of relations. -/
def ofRelations [Scalar S] (relations : List (Relation S)) : Result S (IndexedGraph S) :=
  relations.foldlM addRelation empty

/-- The graph of a batch. -/
def ofBatch [Scalar S] (b : Batch S) : Result S (IndexedGraph S) := do
  let g ← b.entities.foldlM (fun g e => (g.addEntity e).map Prod.snd) empty
  (← b.resolve).foldlM addRelation g

/-! ### Measures -/

/-- The ordered pairs of different nodes that are joined, each once. -/
def joinedPairs (g : IndexedGraph S) : List (Nat × Nat) :=
  ((g.edges.toList.filter fun e => e.source != e.target).map fun e =>
    (e.source, e.target)).eraseDups

/-- The joined ordered pairs as a share of all ordered pairs of different entities. It is zero below
two entities, and relations of several types between two entities count once. -/
def density [Scalar S] (g : IndexedGraph S) : S :=
  if g.nodeCount < 2 then 0.0
  else
    let n : S := (g.nodeCount : S)
    (g.joinedPairs.length : S) / (n * (n - 1.0))

/-- The mean number of relations that leave an entity; zero without entities. -/
def averageDegree [Scalar S] (g : IndexedGraph S) : S :=
  if g.nodeCount = 0 then 0.0 else (g.edgeCount : S) / (g.nodeCount : S)

end IndexedGraph

end GraphReasoner
