import GraphReasoner.Decimal.Dyadic

/-!
# JSON documents

A document is a tree. Integers are kept apart from other numbers, because a property keeps them
apart, and an object is the list of its fields as they were written, repeated names included:
whether a repeated name is an error depends on who reads the object.

The leaf `GraphReasoner.Json.unreadable` stands for a value that is well formed but denotes nothing
the reasoner can hold: a number past the largest double, half of a surrogate pair, nesting beyond
the limit. Such a value is harmless in a field that nobody asks for, and an error elsewhere.
-/

namespace GraphReasoner

/-- A JSON document over a type of numbers. -/
inductive Json (S : Type)
  | null
  | bool (value : Bool)
  | int (value : Int)
  | float (value : S)
  | string (value : String)
  | array (items : List (Json S))
  | object (fields : List (String × Json S))
  /-- A well-formed value that cannot be held. -/
  | unreadable

namespace Json

variable {S : Type}

instance : Inhabited (Json S) := ⟨null⟩

/-- A list of texts. -/
def texts (items : List String) : Json S :=
  array (items.map string)

/-- The fields of an object, the last of each name, in the order of their last appearances. -/
def lastOfEach (fields : List (String × Json S)) : List (String × Json S) :=
  (fields.reverse.foldl (fun kept field =>
    if kept.any fun other => other.1 == field.1 then kept else kept ++ [field]) []).reverse

/-- The value of a field, the last one if the name is repeated. -/
def field? (name : String) : Json S → Option (Json S)
  | object fields => (fields.reverse.find? fun field => field.1 == name).map Prod.snd
  | _ => none

end Json

end GraphReasoner
