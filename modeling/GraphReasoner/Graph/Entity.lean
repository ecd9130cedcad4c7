import GraphReasoner.Error
import GraphReasoner.Properties
import GraphReasoner.Text.Blank

/-!
# Entities

An entity is a node of the graph: an identifier, a name, a type, and properties. None of the first
three may be blank (`GraphReasoner.Entity.validate`).
-/

namespace GraphReasoner

/-- A typed, named node. -/
structure Entity (S : Type) where
  /-- The identifier, unique in a graph. -/
  id : String
  /-- The name that is shown. -/
  name : String
  /-- The type, such as `person` or `concept`. -/
  kind : String
  /-- Whatever else is known. -/
  properties : Properties S
deriving Inhabited

namespace Entity

variable {S : Type}

instance [BEq S] : BEq (Entity S) :=
  ⟨fun a b => a.id == b.id && a.name == b.name && a.kind == b.kind && a.properties == b.properties⟩

/-- The first required field that is blank, if there is one. -/
def blankField? (e : Entity S) : Option String :=
  if Text.AllBlank e.id then some "id"
  else if Text.AllBlank e.name then some "name"
  else if Text.AllBlank e.kind then some "type"
  else none

/-- Refuses an entity with a blank required field. -/
def validate (e : Entity S) : Result S Unit :=
  match e.blankField? with
  | some field => .error (.missingField "entity" field)
  | none => .ok ()

/-- The fields of an entity, in the order in which they are written. -/
def fieldNames : List String := ["id", "name", "type", "properties"]

/-- An entity as a document. -/
def toJson (e : Entity S) : Json S :=
  .object [("id", .string e.id), ("name", .string e.name), ("type", .string e.kind),
    ("properties", e.properties.toJson)]

/-- An entity from a document. -/
def ofJson? [IntCast S] (document : Json S) : Option (Entity S) := do
  let fields ← document.fields? Json.strict fieldNames
  let id ← fields.required "id" Json.asText
  let name ← fields.required "name" Json.asText
  let kind ← fields.required "type" Json.asText
  let properties ← fields.withDefault "properties" Properties.empty Properties.ofJson?
  return ⟨id, name, kind, properties⟩

end Entity

end GraphReasoner
