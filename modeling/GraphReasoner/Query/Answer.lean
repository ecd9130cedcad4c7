import GraphReasoner.Graph.Store
import GraphReasoner.Query.Token

/-!
# Answers

An answer is a part of the graph: nodes, edges, and for some kinds of questions the paths it is made
of, with a confidence in the unit interval. Nodes and edges carry the properties of their entities
and relations, in which name, type and confidence are properties like all others.

Answers are stored as documents, so they can be written and read back
(`GraphReasoner.Query.Answer.toJson`, `GraphReasoner.Query.Answer.ofJson?`).
-/

namespace GraphReasoner.Query

open GraphReasoner.Time (Instant)

/-- A node of an answer. -/
structure AnswerNode (S : Type) where
  id : String
  /-- The properties of the entity with its name and type. -/
  properties : Properties S

/-- An edge of an answer. -/
structure AnswerEdge (S : Type) where
  source : String
  target : String
  /-- The properties of the relation with its type and confidence. -/
  properties : Properties S

/-- What a question is answered with. -/
structure Answer (S : Type) where
  nodes : List (AnswerNode S)
  edges : List (AnswerEdge S)
  /-- Lists of identifiers; only for paths and subgraphs. -/
  paths : List (List String)
  /-- In the unit interval. -/
  confidence : S
  /-- How many seconds the search took. -/
  elapsed : S
  kind : Kind
  /-- When the answer was found. -/
  time : Instant

variable {S : Type}

/-- The node of an entity. -/
def AnswerNode.ofEntity (e : Entity S) : AnswerNode S :=
  ⟨e.id, (e.properties.insert "name" (.text e.name)).insert "type" (.text e.kind)⟩

/-- The edge of a relation. -/
def AnswerEdge.ofRelation (r : Relation S) : AnswerEdge S :=
  ⟨r.source.id, r.target.id,
    (r.properties.insert "relation_type" (.text r.kind)).insert "confidence" (.float r.confidence)⟩

namespace AnswerNode

instance [BEq S] : BEq (AnswerNode S) :=
  ⟨fun a b => a.id == b.id && a.properties == b.properties⟩

/-- A node as a document. -/
def toJson (n : AnswerNode S) : Json S :=
  .object [("id", .string n.id), ("properties", n.properties.toJson)]

/-- A node from a document. -/
def ofJson? [IntCast S] (document : Json S) : Option (AnswerNode S) := do
  let fields ← document.fields? Json.strict ["id", "properties"]
  let id ← fields.required "id" Json.asText
  let properties ← fields.required "properties" Properties.ofJson?
  return ⟨id, properties⟩

end AnswerNode

namespace AnswerEdge

instance [BEq S] : BEq (AnswerEdge S) :=
  ⟨fun a b => a.source == b.source && a.target == b.target && a.properties == b.properties⟩

/-- The type of the relation. -/
def relationKind? (e : AnswerEdge S) : Option String :=
  e.properties.text? "relation_type"

/-- An edge as a document. -/
def toJson (e : AnswerEdge S) : Json S :=
  .object [("source", .string e.source), ("target", .string e.target),
    ("properties", e.properties.toJson)]

/-- An edge from a document. -/
def ofJson? [IntCast S] (document : Json S) : Option (AnswerEdge S) := do
  let fields ← document.fields? Json.strict ["source", "target", "properties"]
  let source ← fields.required "source" Json.asText
  let target ← fields.required "target" Json.asText
  let properties ← fields.required "properties" Properties.ofJson?
  return ⟨source, target, properties⟩

end AnswerEdge

namespace Answer

/-- The answer with nothing found. -/
def empty [Scalar S] (kind : Kind) (now : Instant) : Answer S :=
  ⟨[], [], [], 0.0, 0.0, kind, now⟩

/-- Whether nothing was found. -/
def isEmpty (a : Answer S) : Bool :=
  a.nodes.isEmpty && a.edges.isEmpty && a.paths.isEmpty

/-- The identifiers of the nodes. -/
def nodeIds (a : Answer S) : List String :=
  a.nodes.map AnswerNode.id

/-- An answer as a document. -/
def toJson (a : Answer S) : Json S :=
  .object [("nodes", .array (a.nodes.map AnswerNode.toJson)),
    ("edges", .array (a.edges.map AnswerEdge.toJson)), ("paths", .array (a.paths.map Json.texts)),
    ("confidence", .float a.confidence), ("execution_time", .float a.elapsed),
    ("query_type", .string a.kind.name), ("timestamp", .string a.time.toText)]

/-- An answer from a document. -/
def ofJson? [IntCast S] (document : Json S) : Option (Answer S) := do
  let fields ← document.fields? Json.strict
    ["nodes", "edges", "paths", "confidence", "execution_time", "query_type", "timestamp"]
  let nodes ← fields.required "nodes" (Json.asList AnswerNode.ofJson?)
  let edges ← fields.required "edges" (Json.asList AnswerEdge.ofJson?)
  let paths ← fields.required "paths" (Json.asList (Json.asList Json.asText))
  let confidence ← fields.required "confidence" Json.asNumber
  let elapsed ← fields.required "execution_time" Json.asNumber
  let kind ← fields.required "query_type" (Json.asChoice Json.strict Kind.named)
  let time ← fields.required "timestamp" Json.asInstant
  return ⟨nodes, edges, paths, confidence, elapsed, kind, time⟩

end Answer

end GraphReasoner.Query
