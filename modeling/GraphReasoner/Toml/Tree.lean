import GraphReasoner.Json.Basic

/-!
# The tree of a TOML document

A TOML document is a list of statements: headers, which open a table, and pairs, which give a key of
the open table a value. A key may be dotted, and then it passes through tables that need no header.
The statements build one tree, under rules that keep every table from being defined twice:

* a header may open a table that exists only because a longer header passed through it;
* a dotted key may pass only through tables that other dotted keys of the same table made;
* a header in double brackets appends a table to a list of tables, and a path that meets such a list
  goes on in its last table.

`GraphReasoner.Toml.build` carries this out and yields the tree as a document, so that configuration
files and JSON are decoded by the same code.
-/

namespace GraphReasoner.Toml

/-- How a table came to be. -/
structure Origin where
  /-- No header names it. -/
  implied : Bool
  /-- A dotted key made it. -/
  dotted : Bool

/-- A node of the tree under construction. -/
inductive Node (S : Type)
  | value (document : Json S)
  | table (origin : Origin) (entries : List (String × Node S))
  | tables (items : List (Node S))

/-- A statement of a TOML document. -/
inductive Statement (S : Type)
  /-- A header in single brackets. -/
  | header (path : List String) (key : String)
  /-- A header in double brackets. -/
  | listHeader (path : List String) (key : String)
  /-- A key, perhaps dotted, and its value. -/
  | pair (path : List String) (key : String) (value : Json S)

variable {S : Type}

/-- The entries with the value of a key replaced, or added at the end. -/
def setEntry (entries : List (String × Node S)) (key : String) (node : Node S) :
    List (String × Node S) :=
  if entries.any fun e => e.1 == key then
    entries.map fun e => if e.1 == key then (key, node) else e
  else entries ++ [(key, node)]

/-- The list with its last item replaced. -/
def replaceLast (items : List (Node S)) (node : Node S) : List (Node S) :=
  items.dropLast ++ [node]

/-- Changes the table at a path, making the tables on the way that are missing. A dotted key must
not pass through a table that a header defined. -/
def descend (dotted : Bool) (change : Node S → Option (Node S)) :
    List String → Node S → Option (Node S)
  | [], node => change node
  | key :: path, .table origin entries =>
    match entries.lookup key with
    | none => do
      let child ← descend dotted change path (.table ⟨true, dotted⟩ [])
      return .table origin (setEntry entries key child)
    | some (.value _) => none
    | some (.tables items) => do
      let last ← items.getLast?
      let child ← descend dotted change path last
      return .table origin (setEntry entries key (.tables (replaceLast items child)))
    | some (.table o es) =>
      if dotted && !o.implied then none
      else do
        let child ← descend dotted change path (.table o es)
        return .table origin (setEntry entries key child)
  | _ :: _, _ => none

/-- Opens the table `key` by a header. -/
def openTable (key : String) : Node S → Option (Node S)
  | .table origin entries =>
    match entries.lookup key with
    | none => some (.table origin (setEntry entries key (.table ⟨false, false⟩ [])))
    | some (.table o es) =>
      if o.implied && !o.dotted then
        some (.table origin (setEntry entries key (.table ⟨false, false⟩ es)))
      else none
    | some _ => none
  | _ => none

/-- Appends a table to the list `key`. -/
def appendTable (key : String) : Node S → Option (Node S)
  | .table origin entries =>
    match entries.lookup key with
    | none => some (.table origin (setEntry entries key (.tables [.table ⟨false, false⟩ []])))
    | some (.tables items) =>
      some (.table origin (setEntry entries key (.tables (items ++ [.table ⟨false, false⟩ []]))))
    | some _ => none
  | _ => none

/-- Gives a new key a value. The last table of a dotted key is one that dotted keys made. -/
def assign (simple : Bool) (key : String) (value : Json S) : Node S → Option (Node S)
  | .table origin entries =>
    if origin.dotted == simple || (entries.lookup key).isSome then none
    else some (.table origin (setEntry entries key (.value value)))
  | _ => none

/-- Gives a key, perhaps dotted, a value in a table. -/
def addPair (path : List String) (key : String) (value : Json S) (node : Node S) :
    Option (Node S) :=
  descend true (assign path.isEmpty key value) path node

/-- Carries out one statement. The state holds the tree and the path of the open table. -/
def execute (state : Node S × List String) : Statement S → Option (Node S × List String)
  | .header path key => do
    return (← descend false (openTable key) path state.1, path ++ [key])
  | .listHeader path key => do
    return (← descend false (appendTable key) path state.1, path ++ [key])
  | .pair path key value => do
    return (← descend false (addPair path key value) state.2 state.1, state.2)

mutual

/-- The document of a node. -/
def Node.toJson : Node S → Json S
  | .value document => document
  | .table _ entries => .object (entriesToJson entries)
  | .tables items => .array (itemsToJson items)

/-- The fields of a table. -/
def entriesToJson : List (String × Node S) → List (String × Json S)
  | [] => []
  | (key, node) :: entries => (key, node.toJson) :: entriesToJson entries

/-- The documents of a list of tables. -/
def itemsToJson : List (Node S) → List (Json S)
  | [] => []
  | node :: nodes => node.toJson :: itemsToJson nodes

end

/-- The empty root table. -/
def root : Node S := .table ⟨false, false⟩ []

/-- The document that a list of statements builds, unless two of them exclude each other. -/
def build (statements : List (Statement S)) : Option (Json S) := do
  let (tree, _) ← statements.foldlM execute (root, [])
  return tree.toJson

/-- The document of an inline table. -/
def buildInline (pairs : List (List String × String × Json S)) : Option (Json S) := do
  let tree ← pairs.foldlM (fun node (path, key, value) => addPair path key value node) root
  return tree.toJson

end GraphReasoner.Toml
