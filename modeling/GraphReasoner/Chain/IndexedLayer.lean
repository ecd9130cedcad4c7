import GraphReasoner.Chain.Layer
import GraphReasoner.Graph.PathSearch
import GraphReasoner.Table

/-!
# A layer with indices

`GraphReasoner.Layer` goes through all its pairs for every look-up. Here the same layer is kept as a
graph whose nodes and edges are named by their places, with what makes a look-up short: the place of
the node of each identifier, and at each node the edges that leave it, newest first. An edge that is
there already gets a new payload in its place, and no index is touched.

Paths are searched through the places of the nodes (`GraphReasoner.Path.search`). What the search
finds are lists of nodes, so the payload of each step is looked up once more, and a path with a step
that has none would be left out.

`GraphReasoner.IndexedLayer.toLayer` forgets the indices.
-/

namespace GraphReasoner

namespace IndexedLayer

/-- An identifier and the places of the edges at it. -/
structure Node where
  id : String
  /-- The edges that leave the node, newest first. -/
  leaving : List Nat

/-- An edge between the nodes at two places. -/
structure Edge (P : Type) where
  source : Nat
  target : Nat
  payload : P

end IndexedLayer

/-- A payload for each of some ordered pairs of identifiers, with indices. -/
structure IndexedLayer (P : Type) where
  /-- The nodes, oldest first. -/
  nodes : Array IndexedLayer.Node
  /-- The edges, oldest first. -/
  edges : Array (IndexedLayer.Edge P)
  /-- The place of the node of each identifier. -/
  places : Table Nat

namespace IndexedLayer

variable {P : Type}

/-- The layer without pairs. -/
def empty : IndexedLayer P := ⟨#[], #[], []⟩

/-! ### Looking up -/

/-- The place of the node with an identifier. -/
def place? (layer : IndexedLayer P) (id : String) : Option Nat :=
  layer.places.get? id

/-- The identifier of the node at a place. -/
def nameAt (layer : IndexedLayer P) (place : Nat) : String :=
  (layer.nodes[place]?.map Node.id).getD ""

/-- The edges that leave the node at a place, newest first. -/
def leavingAt (layer : IndexedLayer P) (place : Nat) : List Nat :=
  (layer.nodes[place]?.map Node.leaving).getD []

/-- The edge from the node at one place to the node at another. -/
def joining? (layer : IndexedLayer P) (source target : Nat) : Option Nat :=
  (layer.leavingAt source).find? fun place => layer.edges[place]?.any fun e => e.target == target

/-- The payload of the edge between the nodes at two places. -/
def payloadAt? (layer : IndexedLayer P) (source target : Nat) : Option P :=
  (layer.joining? source target).bind fun place => layer.edges[place]?.map Edge.payload

/-- The payload of a pair. -/
def payload? (layer : IndexedLayer P) (source target : String) : Option P := do
  layer.payloadAt? (← layer.place? source) (← layer.place? target)

/-- The number of pairs. -/
def size (layer : IndexedLayer P) : Nat :=
  layer.edges.size

/-- The layer without its indices. -/
def toLayer (layer : IndexedLayer P) : Layer P where
  nodes := layer.nodes.toList.map Node.id
  links := layer.edges.toList.map fun e =>
    ((layer.nameAt e.source, layer.nameAt e.target), e.payload)

/-! ### Growing -/

/-- Adds a node for an identifier. -/
def addNode (layer : IndexedLayer P) (id : String) : IndexedLayer P :=
  { layer with
    nodes := layer.nodes.push ⟨id, []⟩
    places := layer.places.insert id layer.nodes.size }

/-- Adds a node for an identifier, unless it has one, and tells where the node is. -/
def ensure (layer : IndexedLayer P) (id : String) : IndexedLayer P × Nat :=
  match layer.place? id with
  | some place => (layer, place)
  | none => (layer.addNode id, layer.nodes.size)

/-- Adds an edge, and enters it at the node it leaves. -/
def addEdge (layer : IndexedLayer P) (e : Edge P) : IndexedLayer P :=
  { layer with
    nodes := layer.nodes.modify e.source fun node =>
      { node with leaving := layer.edges.size :: node.leaving }
    edges := layer.edges.push e }

/-- Gives the edge at a place another payload. -/
def setPayload (layer : IndexedLayer P) (place : Nat) (payload : P) : IndexedLayer P :=
  { layer with edges := layer.edges.modify place fun e => { e with payload } }

/-- Adds an edge, or gives its payload to the edge between its nodes. The answer is the payload
that is replaced. -/
def putEdge (layer : IndexedLayer P) (e : Edge P) : Option P × IndexedLayer P :=
  match layer.joining? e.source e.target with
  | some place => (layer.edges[place]?.map Edge.payload, layer.setPayload place e.payload)
  | none => (none, layer.addEdge e)

/-- Gives a pair a payload. The answer is the payload it replaces. -/
def insert (layer : IndexedLayer P) (source target : String) (payload : P) :
    Option P × IndexedLayer P :=
  let (layer, source) := layer.ensure source
  let (layer, target) := layer.ensure target
  layer.putEdge ⟨source, target, payload⟩

/-! ### Paths -/

/-- The nodes that the edges from a node lead to. -/
def adjacent (layer : IndexedLayer P) (place : Nat) : List Nat :=
  (layer.leavingAt place).filterMap fun edge => layer.edges[edge]?.map Edge.target

/-- The payloads along each simple path of at most `hops` steps. -/
def paths (layer : IndexedLayer P) (source target : String) (hops : Nat) : List (List P) :=
  match layer.place? source, layer.place? target with
  | some source, some target =>
    (Path.search layer.adjacent source target hops).filterMap fun path =>
      (Path.pairs path).mapM fun (u, v) => layer.payloadAt? u v
  | _, _ => []

end IndexedLayer

end GraphReasoner
