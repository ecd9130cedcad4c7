import GraphReasoner.Graph.Batch

/-!
# The knowledge graph

A graph is the list of its entities in the order of their first appearance, and the list of its
records in the order of the first appearance of their triples. An identifier keeps the entity it was
first bound to; a triple of source, target and type keeps its place and takes the content it was
last given. A relation brings its entities with it.

Every view is computed from these two lists. Around an entity, relations are listed newest first;
the list of all relations, and the list of those of one type, are oldest first.

* `GraphReasoner.Graph.addEntity`, `GraphReasoner.Graph.addRelation` – the two ways to grow;
* `GraphReasoner.Graph.relations`, `GraphReasoner.Graph.outgoing`, `GraphReasoner.Graph.incoming`,
  `GraphReasoner.Graph.between` and `GraphReasoner.Graph.ofKind` – the views;
* `GraphReasoner.Graph.density` – the share of ordered pairs that are joined.
-/

namespace GraphReasoner

/-- A directed graph of entities whose edges are typed. -/
structure Graph (S : Type) where
  /-- The entities, oldest first. -/
  entities : List (Entity S)
  /-- The edges, oldest first. -/
  records : List (Record S)
deriving Inhabited

namespace Graph

variable {S : Type}

/-- The graph without entities. -/
def empty : Graph S := ⟨[], []⟩

/-! ### Looking up -/

/-- The entity with an identifier. -/
def entity? (g : Graph S) (id : String) : Option (Entity S) :=
  g.entities.find? fun e => e.id == id

/-- Whether an identifier is bound. -/
def hasEntity (g : Graph S) (id : String) : Bool :=
  g.entities.any fun e => e.id == id

/-- The relation that a record stands for. -/
def resolve? (g : Graph S) (r : Record S) : Option (Relation S) := do
  let source ← g.entity? r.source
  let target ← g.entity? r.target
  return r.between source target

/-- Every relation, oldest first. -/
def relations (g : Graph S) : List (Relation S) :=
  g.records.filterMap g.resolve?

/-- The records that leave an entity, newest first. -/
def leaving (g : Graph S) (id : String) : List (Record S) :=
  (g.records.filter fun r => r.source == id).reverse

/-- The records that enter an entity, newest first. -/
def entering (g : Graph S) (id : String) : List (Record S) :=
  (g.records.filter fun r => r.target == id).reverse

/-- The relations that leave an entity, newest first. -/
def outgoing (g : Graph S) (id : String) : List (Relation S) :=
  (g.leaving id).filterMap g.resolve?

/-- The relations that enter an entity, newest first. -/
def incoming (g : Graph S) (id : String) : List (Relation S) :=
  (g.entering id).filterMap g.resolve?

/-- The relations from one entity to another, newest first. -/
def between (g : Graph S) (source target : String) : List (Relation S) :=
  ((g.leaving source).filter fun r => r.target == target).filterMap g.resolve?

/-- The relations of one type, oldest first. -/
def ofKind (g : Graph S) (kind : String) : List (Relation S) :=
  (g.records.filter fun r => r.kind == kind).filterMap g.resolve?

/-- The record with a triple of source, target and type. -/
def record? (g : Graph S) (triple : String × String × String) : Option (Record S) :=
  g.records.find? fun r => r.triple == triple

/-- The relation with a triple of source, target and type. -/
def relation? (g : Graph S) (source target kind : String) : Option (Relation S) :=
  (g.record? (source, target, kind)).bind g.resolve?

/-- The targets of the relations that leave an entity, each once, newest first. -/
def successors (g : Graph S) (id : String) : List String :=
  ((g.leaving id).map Record.target).eraseDups

/-- The sources of the relations that enter an entity, each once, newest first. -/
def predecessors (g : Graph S) (id : String) : List String :=
  ((g.entering id).map Record.source).eraseDups

/-- The entities joined to an entity in either direction, each once, successors first. -/
def neighbors (g : Graph S) (id : String) : List String :=
  ((g.leaving id).map Record.target ++ (g.entering id).map Record.source).eraseDups

/-- The types of relations that occur, each once. -/
def kinds (g : Graph S) : List String :=
  (g.records.map Record.kind).eraseDups

/-! ### Growing -/

/-- Adds an entity. The answer tells whether it is new; a different entity with the same identifier
is refused. -/
def addEntity [BEq S] (g : Graph S) (e : Entity S) : Result S (Bool × Graph S) := do
  e.validate
  match g.entity? e.id with
  | none => return (true, { g with entities := g.entities ++ [e] })
  | some bound => if bound == e then return (false, g) else throw (.duplicateEntity e.id)

/-- Binds the identifier of an entity, unless it is bound. -/
def bind (g : Graph S) (e : Entity S) : Graph S :=
  if g.hasEntity e.id then g else { g with entities := g.entities ++ [e] }

/-- Puts a record in the place of the one with its triple, or at the end. -/
def put (records : List (Record S)) (r : Record S) : List (Record S) :=
  match records with
  | [] => [r]
  | old :: rest => if old.triple == r.triple then r :: rest else old :: put rest r

/-- Adds a valid relation, and its entities as far as their identifiers are not bound. -/
def addRelation [Scalar S] (g : Graph S) (r : Relation S) : Result S (Graph S) := do
  r.validate
  let g := (g.bind r.source).bind r.target
  return { g with records := put g.records r.toRecord }

/-- Adds every entity of a list. -/
def addEntities [BEq S] (g : Graph S) (entities : List (Entity S)) : Result S (Graph S) :=
  entities.foldlM (fun g e => (g.addEntity e).map Prod.snd) g

/-- Adds every relation of a list. -/
def addRelations [Scalar S] (g : Graph S) (relations : List (Relation S)) : Result S (Graph S) :=
  relations.foldlM addRelation g

/-- The graph of a batch. -/
def ofBatch [Scalar S] (b : Batch S) : Result S (Graph S) := do
  let g ← empty.addEntities b.entities
  g.addRelations (← b.resolve)

/-- The graph of a list of relations. -/
def ofRelations [Scalar S] (relations : List (Relation S)) : Result S (Graph S) :=
  empty.addRelations relations

/-- The batch that a graph can be built from again. -/
def toBatch (g : Graph S) : Batch S :=
  ⟨g.entities, g.records⟩

/-! ### Measures -/

/-- The number of entities. -/
def nodeCount (g : Graph S) : Nat :=
  g.entities.length

/-- The number of relations. -/
def edgeCount (g : Graph S) : Nat :=
  g.records.length

/-- The ordered pairs of different entities that are joined, each once. -/
def joinedPairs (g : Graph S) : List (String × String) :=
  ((g.records.filter fun r => r.source != r.target).map fun r => (r.source, r.target)).eraseDups

/-- The joined ordered pairs as a share of all ordered pairs of different entities. It is zero below
two entities, and relations of several types between two entities count once. -/
def density [Scalar S] (g : Graph S) : S :=
  if g.nodeCount < 2 then 0.0
  else
    let n : S := (g.nodeCount : S)
    (g.joinedPairs.length : S) / (n * (n - 1.0))

/-- The mean number of relations that leave an entity; zero without entities. -/
def averageDegree [Scalar S] (g : Graph S) : S :=
  if g.nodeCount = 0 then 0.0 else (g.edgeCount : S) / (g.nodeCount : S)

end Graph

end GraphReasoner
