import GraphReasoner.Graph.Relation

/-!
# Batches

A batch is what an extractor hands over: a list of entities and a list of records that name them.
Resolving a batch (`GraphReasoner.Batch.resolve`) puts the entities in place of their identifiers;
of several entities with one identifier the last is taken.
-/

namespace GraphReasoner

/-- Entities, and relations that name them by identifier. -/
structure Batch (S : Type) where
  entities : List (Entity S)
  records : List (Record S)
deriving Inhabited

namespace Batch

variable {S : Type}

instance [BEq S] : BEq (Batch S) :=
  ⟨fun a b => a.entities == b.entities && a.records == b.records⟩

/-- The batch without entities. -/
def empty : Batch S := ⟨[], []⟩

/-- The entity with an identifier, the last one if there are several. -/
def lookup (b : Batch S) (id : String) : Result S (Entity S) :=
  match b.entities.reverse.find? fun e => e.id == id with
  | some e => .ok e
  | none => .error (.unknownEntity id)

/-- The valid relation that a record of the batch stands for. -/
def resolveRecord [Scalar S] (b : Batch S) (r : Record S) : Result S (Relation S) := do
  let source ← b.lookup r.source
  let target ← b.lookup r.target
  let relation := r.between source target
  relation.validate
  return relation

/-- The relations of a batch. The first record with an unknown entity or a defect is reported. -/
def resolve [Scalar S] (b : Batch S) : Result S (List (Relation S)) :=
  b.records.mapM b.resolveRecord

/-- A batch as a document. -/
def toJson (b : Batch S) : Json S :=
  .object [("entities", .array (b.entities.map Entity.toJson)),
    ("relations", .array (b.records.map Record.toJson))]

/-- A batch from a document. -/
def ofJson? [IntCast S] (document : Json S) : Option (Batch S) := do
  let fields ← document.fields? Json.strict ["entities", "relations"]
  let entities ← fields.withDefault "entities" [] (Json.asList Entity.ofJson?)
  let records ← fields.withDefault "relations" [] (Json.asList Record.ofJson?)
  return ⟨entities, records⟩

end Batch

end GraphReasoner
