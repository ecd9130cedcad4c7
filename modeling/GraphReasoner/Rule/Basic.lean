import GraphReasoner.Error
import GraphReasoner.Json.Fields
import GraphReasoner.Text.Blank

/-!
# Composition rules

A rule says that an edge of one type followed by an edge of another implies an edge of a third type
between the outer ends. The new edge is believed a little less than the two it comes from: their
confidences are multiplied, and then multiplied by the rule's factor.

* `GraphReasoner.Rule.validate` – identifier, premises and conclusion are not blank, and the factor
  lies in `(0, 1]`; the first defect is reported;
* `GraphReasoner.Rule.make` – an active rule stamped with the time of its making.
-/

namespace GraphReasoner

open GraphReasoner.Time (Instant)

/-- A first edge and a second edge imply a conclusion. -/
structure Rule (S : Type) where
  /-- The identifier, unique in a rule set. -/
  id : String
  name : String
  description : String
  /-- The type of the first edge. -/
  first : String
  /-- The type of the second edge. -/
  second : String
  /-- The type of the edge that is implied. -/
  conclusion : String
  /-- What the product of the two confidences is multiplied by. -/
  factor : S
  /-- Whether the rule is applied. -/
  active : Bool
  created : Instant
  updated : Instant

namespace Rule

variable {S : Type}

/-- An active rule, named by its identifier. -/
def make (id first second conclusion : String) (factor : S) (now : Instant) : Rule S :=
  { id, name := id, description := "", first, second, conclusion, factor, active := true,
    created := now, updated := now }

/-- The first defect of a rule, if it has one. -/
def defect? [Scalar S] (r : Rule S) : Option (RuleDefect S) :=
  if Text.AllBlank r.id then some .emptyId
  else if Text.AllBlank r.first ∨ Text.AllBlank r.second then some .emptyPremise
  else if Text.AllBlank r.conclusion then some .emptyConclusion
  else if (0.0 : S) < r.factor ∧ r.factor ≤ 1.0 then none
  else some (.factorOutOfRange r.factor)

/-- Refuses a rule with a defect. -/
def validate [Scalar S] (r : Rule S) : Result S Unit :=
  match r.defect? with
  | some defect => .error (.invalidRule r.id defect)
  | none => .ok ()

/-- A rule on one line. -/
def summary [Numeral S] (r : Rule S) : String :=
  r.first ++ " ∘ " ++ r.second ++ " ⟹ " ++ r.conclusion ++ " (×" ++ Numeral.display r.factor ++ ")"

/-- A rule as a document. -/
def toJson (r : Rule S) : Json S :=
  .object [("id", .string r.id), ("name", .string r.name), ("description", .string r.description),
    ("premises", .texts [r.first, r.second]), ("conclusion", .string r.conclusion),
    ("confidence_factor", .float r.factor), ("active", .bool r.active),
    ("created_at", .string r.created.toText), ("updated_at", .string r.updated.toText)]

/-- The two premises of a rule. -/
def premises? (dialect : Json.Dialect) : Json S → Option (String × String)
  | .array (.string first :: .string second :: rest) =>
    if rest.isEmpty || dialect.surplusItems then some (first, second) else none
  | _ => none

/-- A rule from a document. Without times of its own it is stamped with the present. -/
def ofJson? [IntCast S] (dialect : Json.Dialect) (now : Instant) (document : Json S) :
    Option (Rule S) := do
  let fields ← document.fields? dialect
    ["id", "name", "description", "premises", "conclusion", "confidence_factor", "active",
      "created_at", "updated_at"]
  let id ← fields.required "id" Json.asText
  let name ← fields.required "name" Json.asText
  let description ← fields.withDefault "description" "" Json.asText
  let (first, second) ← fields.required "premises" (premises? dialect)
  let conclusion ← fields.required "conclusion" Json.asText
  let factor ← fields.required "confidence_factor" Json.asNumber
  let active ← fields.withDefault "active" true Json.asBool
  let created ← fields.withDefault "created_at" now Json.asInstant
  let updated ← fields.withDefault "updated_at" now Json.asInstant
  return { id, name, description, first, second, conclusion, factor, active, created, updated }

end Rule

end GraphReasoner
