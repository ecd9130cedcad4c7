import GraphReasoner.Cache.Medium

/-!
# A folder as a medium

Each payload is a file of its own, named by its key with the extension `cache`. The index is one
more file, a JSON object from keys to entries. It is written under a passing name first and then
renamed, so that a broken-off write never leaves half an index.

A key becomes a part of a file name, so not every text can be one:
`GraphReasoner.Directory.ValidKey` refuses the empty text, separators of paths, and two dots in a
row.
-/

namespace GraphReasoner

/-- A folder that holds payloads and an index. -/
structure Directory where
  /-- The text of the path of the folder. -/
  path : String
  /-- What the folder holds. -/
  items : Folder

namespace Directory

/-- The name of the index file. -/
def indexName : String := "cache_metadata.json"

/-- The name of the index file while it is written. -/
def passingName : String := "cache_metadata.json.tmp"

/-- The extension of payload files. -/
def payloadExtension : String := "cache"

/-- The path of something in the folder. -/
def pathOf (d : Directory) (name : String) : String :=
  if d.path = "" ∨ d.path.endsWith "/" then d.path ++ name else d.path ++ "/" ++ name

/-- A key that can be a part of a file name. -/
def ValidKey (key : String) : Prop :=
  key ≠ "" ∧ '/' ∉ key.toList ∧ '\\' ∉ key.toList ∧ ¬ ['.', '.'] <:+: key.toList

instance (key : String) : Decidable (ValidKey key) :=
  inferInstanceAs (Decidable (_ ∧ _ ∧ _ ∧ _))

/-- The name of the payload file of a key. -/
def payloadName (key : String) : Except StorageError String :=
  if ValidKey key then .ok (key ++ "." ++ payloadExtension) else .error (.invalidKey key)

/-- The path of the payload file of a key. -/
def payloadPath (d : Directory) (key : String) : Except StorageError String :=
  d.pathOf <$> payloadName key

/-- Carries out a change of the folder that concerns one name. -/
def change (d : Directory) (name : String) (result : Except Refusal Folder) :
    Outcome Directory Unit :=
  match result with
  | .ok items => (.ok (), { d with items })
  | .error _ => (.error (.io (d.pathOf name)), d)

/-- Reads a file, which may be missing. -/
def readFile (d : Directory) (name : String) : Except StorageError (Option Bytes) :=
  match d.items.read name with
  | .ok bytes => .ok (some bytes)
  | .error .absent => .ok none
  | .error .unusable => .error (.io (d.pathOf name))

/-- Removes some files in turn, up to the first that cannot be removed. -/
def removeAll (d : Directory) : List String → Outcome Directory Unit
  | [] => (.ok (), d)
  | name :: names =>
    match d.change name (d.items.remove name) with
    | (.ok _, d) => removeAll d names
    | refused => refused

/-- Whether a name is that of a payload file. -/
def isPayloadName (name : String) : Bool :=
  Folder.extension? name == some payloadExtension

/-- The index as the text of a file. -/
def indexText (entries : List Entry) : String :=
  let table : List (String × Json Float) :=
    (Entry.table entries).map fun (key, e) => (key, e.toJson)
  Json.pretty (.object table)

/-- The entries of the text of an index file. -/
def ofIndexText? (text : String) : Option (List Entry) := do
  match (← Json.read text : Json Float) with
  | .object fields =>
    let entries ← fields.mapM fun (key, document) => do return (key, ← Entry.ofJson? document)
    return (Table.ofList entries).values
  | _ => none

/-- The saved index. -/
def index (d : Directory) : Except StorageError (List Entry) := do
  match ← d.readFile indexName with
  | none => return []
  | some bytes =>
    match bytes.text? with
    | none => throw (.io (d.pathOf indexName))
    | some text =>
      match ofIndexText? text with
      | some entries => return entries
      | none => throw (.corruptIndex (d.pathOf indexName))

/-- Saves an index: first under the passing name, then under its own. -/
def writeIndex (d : Directory) (entries : List Entry) : Outcome Directory Unit :=
  match d.change passingName (d.items.write passingName (.ofText (indexText entries))) with
  | (.ok _, d) => d.change indexName (d.items.rename passingName indexName)
  | refused => refused

/-- Does something with the payload file of a key. -/
def withPayload {α : Type} (d : Directory) (key : String) (action : String → Outcome Directory α) :
    Outcome Directory α :=
  match payloadName key with
  | .ok name => action name
  | .error e => (.error e, d)

instance : Medium Directory where
  read d key := d.withPayload key fun name => (d.readFile name, d)
  write d key payload := d.withPayload key fun name => d.change name (d.items.write name payload)
  delete d key := d.withPayload key fun name => d.change name (d.items.remove name)
  clear d := d.removeAll (d.items.keys.filter isPayloadName ++ [indexName])
  loadIndex d := (d.index, d)
  saveIndex d entries := d.writeIndex entries

end Directory

end GraphReasoner
