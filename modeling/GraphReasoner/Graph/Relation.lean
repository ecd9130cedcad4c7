import GraphReasoner.Graph.Entity
import GraphReasoner.Time.Rfc3339

/-!
# Relations

A relation is a typed edge from one entity to another, held with some confidence, and perhaps only
for some time. It comes in two forms: `GraphReasoner.Relation` carries its two entities, and
`GraphReasoner.Record` names them by their identifiers, as an extractor hands them over.

* `GraphReasoner.Relation.validate` – both entities are valid, the type is not blank, the confidence
  lies in the unit interval, and the end is not before the start; the first of these that fails is
  reported;
* `GraphReasoner.Relation.derived` – a relation found by inference.
-/

namespace GraphReasoner

open GraphReasoner.Time (Instant)

/-- When a relation holds. -/
structure Bounds (S : Type) where
  /-- Its beginning. -/
  start : Instant
  /-- Its end, if known. -/
  stop : Option Instant
  /-- Its duration in seconds, if the extractor reports one. -/
  duration : Option S
deriving Inhabited

/-- A typed edge between two entities. -/
structure Relation (S : Type) where
  source : Entity S
  target : Entity S
  /-- The type of the relation. -/
  kind : String
  /-- The strength of belief, in the unit interval. -/
  confidence : S
  properties : Properties S
  /-- When the relation holds, if that is known. -/
  temporal : Option (Bounds S)

/-- A typed edge between two entities, named by their identifiers. -/
structure Record (S : Type) where
  source : String
  target : String
  kind : String
  confidence : S
  properties : Properties S
  temporal : Option (Bounds S)

variable {S : Type}

namespace Bounds

instance [BEq S] : BEq (Bounds S) :=
  ⟨fun a b => a.start == b.start && a.stop == b.stop && a.duration == b.duration⟩

/-- Whether the end comes before the start. -/
def Reversed (b : Bounds S) : Prop :=
  ∃ stop ∈ b.stop, stop < b.start

instance (b : Bounds S) : Decidable b.Reversed :=
  match h : b.stop with
  | none => isFalse (by simp [Reversed, h])
  | some stop => decidable_of_iff (stop < b.start) (by simp [Reversed, h])

/-- Bounds as a document; what is not known is left out. -/
def toJson (b : Bounds S) : Json S :=
  .object ([("start", .string b.start.toText)] ++
    Json.written "end" (fun t => .string t.toText) b.stop ++
    Json.written "duration_secs" .float b.duration)

/-- Bounds from a document. -/
def ofJson? [IntCast S] (document : Json S) : Option (Bounds S) := do
  let fields ← document.fields? Json.strict ["start", "end", "duration_secs"]
  let start ← fields.required "start" Json.asInstant
  let stop ← fields.optional "end" Json.asInstant
  let duration ← fields.optional "duration_secs" Json.asNumber
  return ⟨start, stop, duration⟩

end Bounds

namespace Relation

instance [BEq S] : BEq (Relation S) :=
  ⟨fun a b => a.source == b.source && a.target == b.target && a.kind == b.kind &&
    a.confidence == b.confidence && a.properties == b.properties && a.temporal == b.temporal⟩

/-- A relation in messages: `source -type-> target`. -/
def describe (r : Relation S) : String :=
  r.source.id ++ " -" ++ r.kind ++ "-> " ++ r.target.id

/-- Two relations with one triple of source, target and type exclude each other in a graph. -/
def triple (r : Relation S) : String × String × String :=
  (r.source.id, r.target.id, r.kind)

/-- Refuses a relation with a defect, reporting the first one. -/
def validate [Scalar S] (r : Relation S) : Result S Unit := do
  r.source.validate
  r.target.validate
  if Text.AllBlank r.kind then
    throw (.missingField "relation" "relation_type")
  if ¬ Scalar.InUnit r.confidence then
    throw (.invalidConfidence ("relation " ++ r.describe) r.confidence)
  match r.temporal with
  | some bounds => if bounds.Reversed then throw (.invalidInterval r.describe)
  | none => pure ()

/-- A valid relation without properties. -/
def make [Scalar S] (source target : Entity S) (kind : String) (confidence : S) :
    Result S (Relation S) := do
  let r : Relation S := ⟨source, target, kind, confidence, .empty, none⟩
  r.validate
  return r

/-- A relation found by inference; its confidence is computed from confidences. -/
def derived (source target : Entity S) (kind : String) (confidence : S)
    (properties : Properties S) : Relation S :=
  ⟨source, target, kind, confidence, properties, none⟩

/-- Whether a relation was found by inference. -/
def isInferred (r : Relation S) : Bool :=
  (r.properties.bool? "inferred").getD false

/-- The rule that a relation was derived by, if it was. -/
def ruleId? (r : Relation S) : Option String :=
  r.properties.text? "rule_id"

/-- The relation with its entities named by their identifiers. -/
def toRecord (r : Relation S) : Record S :=
  ⟨r.source.id, r.target.id, r.kind, r.confidence, r.properties, r.temporal⟩

end Relation

/-! ### Documents -/

/-- The fields of a relation, in the order in which they are written. -/
def Relation.fieldNames : List String :=
  ["source", "target", "relation_type", "confidence", "properties", "temporal"]

namespace Relation

/-- A relation as a document. -/
def toJson (r : Relation S) : Json S :=
  .object ([("source", r.source.toJson), ("target", r.target.toJson),
    ("relation_type", .string r.kind), ("confidence", .float r.confidence),
    ("properties", r.properties.toJson)] ++ Json.written "temporal" Bounds.toJson r.temporal)

/-- A relation from a document. -/
def ofJson? [IntCast S] (document : Json S) : Option (Relation S) := do
  let fields ← document.fields? Json.strict fieldNames
  let source ← fields.required "source" Entity.ofJson?
  let target ← fields.required "target" Entity.ofJson?
  let kind ← fields.required "relation_type" Json.asText
  let confidence ← fields.required "confidence" Json.asNumber
  let properties ← fields.withDefault "properties" Properties.empty Properties.ofJson?
  let temporal ← fields.optional "temporal" Bounds.ofJson?
  return ⟨source, target, kind, confidence, properties, temporal⟩

end Relation

namespace Record

instance [BEq S] : BEq (Record S) :=
  ⟨fun a b => a.source == b.source && a.target == b.target && a.kind == b.kind &&
    a.confidence == b.confidence && a.properties == b.properties && a.temporal == b.temporal⟩

/-- Two records with one triple of source, target and type exclude each other in a graph. -/
def triple (r : Record S) : String × String × String :=
  (r.source, r.target, r.kind)

/-- The relation of a record, given its entities. -/
def between (r : Record S) (source target : Entity S) : Relation S :=
  ⟨source, target, r.kind, r.confidence, r.properties, r.temporal⟩

/-- A record as a document. -/
def toJson (r : Record S) : Json S :=
  .object ([("source", .string r.source), ("target", .string r.target),
    ("relation_type", .string r.kind), ("confidence", .float r.confidence),
    ("properties", r.properties.toJson)] ++ Json.written "temporal" Bounds.toJson r.temporal)

/-- A record from a document. -/
def ofJson? [IntCast S] (document : Json S) : Option (Record S) := do
  let fields ← document.fields? Json.strict Relation.fieldNames
  let source ← fields.required "source" Json.asText
  let target ← fields.required "target" Json.asText
  let kind ← fields.required "relation_type" Json.asText
  let confidence ← fields.required "confidence" Json.asNumber
  let properties ← fields.withDefault "properties" Properties.empty Properties.ofJson?
  let temporal ← fields.optional "temporal" Bounds.ofJson?
  return ⟨source, target, kind, confidence, properties, temporal⟩

end Record

end GraphReasoner
