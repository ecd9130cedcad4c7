import GraphReasoner.Chain.Dated
import GraphReasoner.Chain.Evidenced
import GraphReasoner.Chain.Walk

/-!
# The chain reasoner

The reasoner owns two layers. A relation with bounds enters the layer of dated relations, a relation
with a probability enters the layer of evidenced ones, and a relation may enter both. Walks need no
layer; they go over the knowledge graph.

* `GraphReasoner.ChainReasoner.ofRelations` – the layers of a list of relations;
* `GraphReasoner.ChainReasoner.inferAll` – a report of all three kinds for one pair of entities;
* `GraphReasoner.ChainReport.explain` – a report in words.
-/

namespace GraphReasoner

/-- The two layers and their settings. -/
structure ChainReasoner (S : Type) where
  settings : ChainSettings S
  dated : Layer (Dated S)
  evidenced : Layer (Evidenced S)

/-- What the three kinds of chains yield for one pair of entities. -/
structure ChainReport (S : Type) where
  temporal : List (Relation S)
  probabilistic : List (Relation S)
  multiHop : List (Relation S)

variable {S : Type}

namespace ChainReasoner

/-- The reasoner with empty layers. -/
def empty (settings : ChainSettings S) : ChainReasoner S :=
  ⟨settings, .empty, .empty⟩

/-- Puts a dated relation into its layer. -/
def insertDated (c : ChainReasoner S) (d : Dated S) : ChainReasoner S :=
  { c with dated := (c.dated.insert d.relation.source.id d.relation.target.id d).2 }

/-- Puts an evidenced relation into its layer. -/
def insertEvidenced (c : ChainReasoner S) (e : Evidenced S) : ChainReasoner S :=
  { c with evidenced := (c.evidenced.insert e.relation.source.id e.relation.target.id e).2 }

variable [Scalar S]

/-- Dates a relation and puts it into its layer. -/
def addDated (c : ChainReasoner S) (r : Relation S) (bounds : Bounds S) :
    Result S (Dated S × ChainReasoner S) := do
  let d ← Dated.make r bounds
  return (d, c.insertDated d)

/-- Gives a relation a probability and evidence and puts it into its layer. -/
def addEvidenced (c : ChainReasoner S) (r : Relation S) (probability : S) (evidence : List String) :
    Result S (Evidenced S × ChainReasoner S) := do
  let e ← Evidenced.make r probability evidence
  return (e, c.insertEvidenced e)

/-- Puts a relation into the layers it belongs to. -/
def load (c : ChainReasoner S) (r : Relation S) : Result S (ChainReasoner S) := do
  let c ← match Dated.ofRelation? r with
    | some d => c.insertDated <$> d
    | none => pure c
  match Evidenced.ofRelation? r with
  | some e => c.insertEvidenced <$> e
  | none => pure c

/-- The reasoner over a list of relations. -/
def ofRelations (settings : ChainSettings S) (relations : List (Relation S)) :
    Result S (ChainReasoner S) :=
  relations.foldlM load (empty settings)

/-- Everything the three kinds of chains yield between two entities. Walks start at the first, and
there is no report when the search for them stops the program. -/
def inferAll (c : ChainReasoner S) (g : Graph S) (source target : Entity S) (kind : String) :
    Option (ChainReport S) := do
  let multiHop ← g.explore? source.id c.settings.maxHops c.settings.minConfidence
  return {
    temporal := (Dated.infer c.dated c.settings source target kind).map Dated.relation
    probabilistic :=
      (Evidenced.infer c.evidenced c.settings source target kind).map Evidenced.relation
    multiHop }

end ChainReasoner

namespace ChainReport

/-- The number of relations of a report. -/
def size (r : ChainReport S) : Nat :=
  r.temporal.length + r.probabilistic.length + r.multiHop.length

/-- One relation in words, under a heading. -/
def explainOne [Numeral S] (heading : String) (r : Relation S) : String :=
  heading ++ ": " ++ r.source.name ++ " and " ++ r.target.name ++ " are linked by " ++ r.kind ++
    " (confidence " ++ Numeral.fixed 2 r.confidence ++ ")"

/-- A report in words, one line a relation. -/
def explain [Numeral S] (r : ChainReport S) : List String :=
  r.temporal.map (explainOne "temporal") ++ r.probabilistic.map (explainOne "probabilistic") ++
    r.multiHop.map fun relation =>
      explainOne (toString ((relation.properties.int? "path_length").getD 0) ++ "-hop") relation

/-- A report as a document. -/
def toJson (r : ChainReport S) : Json S :=
  .object [("temporal", .array (r.temporal.map Relation.toJson)),
    ("probabilistic", .array (r.probabilistic.map Relation.toJson)),
    ("multi_hop", .array (r.multiHop.map Relation.toJson))]

end ChainReport

end GraphReasoner
