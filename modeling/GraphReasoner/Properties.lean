import GraphReasoner.Value

/-!
# Properties

The properties of an entity or a relation are a table of values. Each accessor of a value has a
companion here that looks a key up first.

* `GraphReasoner.Properties` – the table;
* `GraphReasoner.Properties.merge` – the entries of a second table overwrite those of the first.
-/

namespace GraphReasoner

/-- A table of values. -/
structure Properties (S : Type) where
  /-- The values by key, in ascending order of the keys. -/
  entries : Table (Value S)

namespace Properties

variable {S : Type}

instance : Inhabited (Properties S) := ⟨⟨[]⟩⟩

instance [BEq S] : BEq (Properties S) := ⟨fun p q => p.entries == q.entries⟩

/-- No properties. -/
def empty : Properties S := ⟨[]⟩

/-- The value of a key. -/
def get? (p : Properties S) (key : String) : Option (Value S) :=
  p.entries.get? key

/-- Gives a key a value, replacing the one it had. -/
def insert (p : Properties S) (key : String) (value : Value S) : Properties S :=
  ⟨p.entries.insert key value⟩

/-- The properties without a key. -/
def erase (p : Properties S) (key : String) : Properties S :=
  ⟨p.entries.erase key⟩

/-- Whether a key has a value. -/
def contains (p : Properties S) (key : String) : Bool :=
  p.entries.contains key

/-- The number of keys. -/
def size (p : Properties S) : Nat :=
  p.entries.length

/-- The properties made of a list of entries, the last value of a key staying. -/
def ofList (entries : List (String × Value S)) : Properties S :=
  ⟨Table.ofList entries⟩

/-- Copies every entry of `q` into `p`. -/
def merge (p q : Properties S) : Properties S :=
  ⟨p.entries.insertAll q.entries⟩

/-- The truth value of a key. -/
def bool? (p : Properties S) (key : String) : Option Bool :=
  (p.get? key).bind Value.asBool

/-- The number of a key. -/
def number? [IntCast S] (p : Properties S) (key : String) : Option S :=
  (p.get? key).bind Value.asNumber

/-- The integer of a key. -/
def int? (p : Properties S) (key : String) : Option Int :=
  (p.get? key).bind Value.asInt

/-- The text of a key. -/
def text? (p : Properties S) (key : String) : Option String :=
  (p.get? key).bind Value.asText

/-- The list of a key. -/
def list? (p : Properties S) (key : String) : Option (List (Value S)) :=
  (p.get? key).bind Value.asList

/-- Properties as an object. -/
def toJson (p : Properties S) : Json S :=
  .object (Value.toJsonEntries p.entries)

/-- Properties from an object. -/
def ofJson? [IntCast S] (document : Json S) : Option (Properties S) :=
  match document with
  | .object fields => (Value.ofJsonFields? fields).map ofList
  | _ => none

end Properties

end GraphReasoner
