import GraphReasoner.Json.Fields
import GraphReasoner.Decimal.Layout
import GraphReasoner.Table

/-!
# Property values

Extractors attach attributes of any shape to what they find. A value is one of seven kinds, and it
is asked for by kind: an accessor answers nothing when the kind does not fit, except that an integer
is also taken for a number. Maps are tables, so their keys ascend.

* `GraphReasoner.Value` – the seven kinds, with Boolean equality;
* `GraphReasoner.Value.display` – the text of a value in messages;
* `GraphReasoner.Value.toJson`, `GraphReasoner.Value.ofJson?` – a value as the plain document it
  wraps. An integer past the signed 64 bits is read as a number.
-/

namespace GraphReasoner

/-- The value of a property. -/
inductive Value (S : Type)
  | null
  | bool (value : Bool)
  | int (value : Int)
  | float (value : S)
  | text (value : String)
  | list (items : List (Value S))
  | map (entries : List (String × Value S))

namespace Value

variable {S : Type}

instance : Inhabited (Value S) := ⟨null⟩

section Equality

variable [BEq S]

mutual

/-- Whether two values are equal: of the same kind, with equal contents. An integer never equals
a number. -/
def beq : Value S → Value S → Bool
  | null, null => true
  | bool a, bool b => a == b
  | int a, int b => a == b
  | float a, float b => a == b
  | text a, text b => a == b
  | list a, list b => beqItems a b
  | map a, map b => beqEntries a b
  | _, _ => false

/-- Equality item by item. -/
def beqItems : List (Value S) → List (Value S) → Bool
  | [], [] => true
  | a :: as, b :: bs => beq a b && beqItems as bs
  | _, _ => false

/-- Equality entry by entry. -/
def beqEntries : List (String × Value S) → List (String × Value S) → Bool
  | [], [] => true
  | (j, a) :: as, (k, b) :: bs => j == k && beq a b && beqEntries as bs
  | _, _ => false

end

instance : BEq (Value S) := ⟨beq⟩

end Equality

/-! ### Accessors -/

/-- The truth value. -/
def asBool : Value S → Option Bool
  | bool b => some b
  | _ => none

/-- The number, also of an integer. -/
def asNumber [IntCast S] : Value S → Option S
  | int i => some (i : S)
  | float x => some x
  | _ => none

/-- The integer. -/
def asInt : Value S → Option Int
  | int i => some i
  | _ => none

/-- The text. -/
def asText : Value S → Option String
  | text s => some s
  | _ => none

/-- The list. -/
def asList : Value S → Option (List (Value S))
  | list items => some items
  | _ => none

/-- The map. -/
def asMap : Value S → Option (Table (Value S))
  | map entries => some entries
  | _ => none

/-- The list of texts, if every item is a text. -/
def asTextList (v : Value S) : Option (List String) :=
  v.asList.bind fun items => items.mapM asText

/-! ### Building -/

/-- The greatest integer that a value holds. -/
def greatestInteger : Int := 9223372036854775807

/-- A size, cut off at the greatest integer. -/
def ofNat (n : Nat) : Value S :=
  int (min (n : Int) greatestInteger)

/-- A list of texts. -/
def ofTexts (items : List String) : Value S :=
  list (items.map text)

/-! ### Texts and documents -/

section Text

variable [Numeral S]

mutual

/-- The text of a value in messages. -/
def display : Value S → String
  | null => "null"
  | bool b => if b then "true" else "false"
  | int i => toString i
  | float x => Numeral.display x
  | text s => s
  | list items => "[" ++ displayItems items ++ "]"
  | map entries => "\x7b" ++ displayEntries entries ++ "\x7d"

/-- Items with commas between them. -/
def displayItems : List (Value S) → String
  | [] => ""
  | [item] => display item
  | item :: items => display item ++ ", " ++ displayItems items

/-- Entries with commas between them. -/
def displayEntries : List (String × Value S) → String
  | [] => ""
  | [(key, value)] => key ++ ": " ++ display value
  | (key, value) :: entries => key ++ ": " ++ display value ++ ", " ++ displayEntries entries

end

end Text

mutual

/-- The document that a value wraps. -/
def toJson : Value S → Json S
  | null => .null
  | bool b => .bool b
  | int i => .int i
  | float x => .float x
  | text s => .string s
  | list items => .array (toJsonItems items)
  | map entries => .object (toJsonEntries entries)

/-- The documents of a list of values. -/
def toJsonItems : List (Value S) → List (Json S)
  | [] => []
  | item :: items => toJson item :: toJsonItems items

/-- The fields of a list of entries. -/
def toJsonEntries : List (String × Value S) → List (String × Json S)
  | [] => []
  | (key, value) :: entries => (key, toJson value) :: toJsonEntries entries

end

section Reading

variable [IntCast S]

mutual

/-- The value that a document wraps. The last value of a repeated name stays. -/
def ofJson? : Json S → Option (Value S)
  | .null => some null
  | .bool b => some (bool b)
  | .int i => some (if i ≤ greatestInteger then int i else float (i : S))
  | .float x => some (float x)
  | .string s => some (text s)
  | .array items => (ofJsonItems? items).map list
  | .object fields => (ofJsonFields? fields).map fun entries => map (Table.ofList entries)
  | .unreadable => none

/-- The values of a list of documents. -/
def ofJsonItems? : List (Json S) → Option (List (Value S))
  | [] => some []
  | item :: items => do
    let value ← ofJson? item
    let values ← ofJsonItems? items
    return value :: values

/-- The entries of a list of fields. -/
def ofJsonFields? : List (String × Json S) → Option (List (String × Value S))
  | [] => some []
  | (key, item) :: fields => do
    let value ← ofJson? item
    let entries ← ofJsonFields? fields
    return (key, value) :: entries

end

end Reading

end Value

end GraphReasoner
