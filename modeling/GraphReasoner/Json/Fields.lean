import GraphReasoner.Json.Basic
import GraphReasoner.Time.Rfc3339

/-!
# Taking values out of documents

A record of the reasoner is read from a document in one of two shapes: an object with the names of
its fields, or an array of its fields in the order in which they are declared. Names that are not
declared are passed over, a declared name must not be repeated, and a field with a default may be
missing – in an array only at the end. `GraphReasoner.Json.fields?` brings both shapes to one form,
from which the fields are then taken by name.

The two sources of documents differ in one point, which `GraphReasoner.Json.Dialect` records:
whether an array may hold more items than are asked for.
-/

namespace GraphReasoner.Json

/-- What the source of a document allows. -/
structure Dialect where
  /-- Whether items past the last one asked for are passed over. -/
  surplusItems : Bool
  /-- Whether a choice without content may be given as an object with an empty value. -/
  emptyContent : Bool

/-- JSON allows no surplus. -/
def strict : Dialect := ⟨false, false⟩

/-- A configuration file allows it. -/
def relaxed : Dialect := ⟨true, true⟩

variable {S : Type}

/-- The declared fields that a document gives, by name. -/
abbrev Fields (S : Type) := List (String × Json S)

/-- The declared fields that a document gives, or nothing if it has not the shape of a record. -/
def fields? (dialect : Dialect) (declared : List String) : Json S → Option (Fields S)
  | object fields =>
    let known := fields.filter fun field => declared.contains field.1
    if (known.map Prod.fst).Nodup then some known else none
  | array items =>
    if dialect.surplusItems || items.length ≤ declared.length then some (declared.zip items)
    else none
  | _ => none

namespace Fields

/-- The document of a field. -/
def get? (fields : Fields S) (name : String) : Option (Json S) :=
  (fields.find? fun field => field.1 == name).map Prod.snd

/-- A field that must be given. -/
def required {α : Type} (fields : Fields S) (name : String) (decode : Json S → Option α) :
    Option α :=
  (fields.get? name).bind decode

/-- A field with a default. -/
def withDefault {α : Type} (fields : Fields S) (name : String) (default : α)
    (decode : Json S → Option α) : Option α :=
  match fields.get? name with
  | none => some default
  | some document => decode document

/-- A field that may be missing or null. -/
def optional {α : Type} (fields : Fields S) (name : String) (decode : Json S → Option α) :
    Option (Option α) :=
  match fields.get? name with
  | none | some null => some none
  | some document => (decode document).map some

end Fields

/-! ### Simple values -/

/-- A text. -/
def asText : Json S → Option String
  | string s => some s
  | _ => none

/-- A truth value. -/
def asBool : Json S → Option Bool
  | bool b => some b
  | _ => none

/-- A number; an integer is taken for one. -/
def asNumber [IntCast S] : Json S → Option S
  | int i => some (i : S)
  | float x => some x
  | _ => none

/-- An integer without sign of at most 64 bits. -/
def asNat : Json S → Option Nat
  | int i => if 0 ≤ i then some i.toNat else none
  | _ => none

/-- An instant, given by its text. -/
def asInstant : Json S → Option Time.Instant
  | string s => Time.Instant.ofText? s
  | _ => none

/-- A list of values. -/
def asList {α : Type} (decode : Json S → Option α) : Json S → Option (List α)
  | array items => items.mapM decode
  | _ => none

/-- One of some named choices, each without content. -/
def asChoice {α : Type} (dialect : Dialect) (choices : List (String × α)) : Json S → Option α
  | string s => choices.lookup s
  | object [(s, content)] =>
    let empty := match content with
      | null => !dialect.emptyContent
      | array [] | object [] => dialect.emptyContent
      | _ => false
    if empty then choices.lookup s else none
  | _ => none

/-- A field that is written only when it is given. -/
def written {α : Type} (name : String) (encode : α → Json S) : Option α → List (String × Json S)
  | none => []
  | some value => [(name, encode value)]

end GraphReasoner.Json
