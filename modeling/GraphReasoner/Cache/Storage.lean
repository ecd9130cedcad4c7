import GraphReasoner.Cache.Database
import GraphReasoner.Cache.Directory

/-!
# The medium that settings choose

Which medium a cache lies on is a matter of settings: the memory of the program, a folder, or a
database in a folder. `GraphReasoner.Storage` is any of the three.

A medium in a folder works on its own copy of the folder between `GraphReasoner.Storage.openIn`,
which makes the folder if it is missing, and `GraphReasoner.Storage.close`, which puts the folder
back into its tree.
-/

namespace GraphReasoner

/-- The media there are. -/
inductive StorageKind
  /-- The memory of the program. -/
  | memory
  /-- A folder with a file for each payload. -/
  | directory
  /-- A database file in a folder. -/
  | database
deriving DecidableEq, Repr, Inhabited

/-- The choice of a medium. -/
structure StorageSettings where
  kind : StorageKind
  /-- The path of the folder, for the media that need one. -/
  dir : Option String
deriving DecidableEq, Repr, Inhabited

/-- A medium that was chosen. A medium in a folder knows where the folder lies. -/
inductive Storage
  | memory (medium : Memory)
  | directory (location : List String) (medium : Directory)
  | database (location : List String) (items : Folder) (medium : Tables)

/-- The media by name. -/
def StorageKind.named : List (String × StorageKind) :=
  [("memory", memory), ("file", directory), ("redb", database)]

/-- The name of a medium. -/
def StorageKind.name : StorageKind → String
  | memory => "memory"
  | directory => "file"
  | database => "redb"

namespace StorageSettings

/-- The settings that hold when none are given. -/
def default : StorageSettings :=
  ⟨.memory, none⟩

/-- The first defect, if there is one. -/
def defect? {S : Type} (s : StorageSettings) : Option (SettingsDefect S) :=
  match s.kind, s.dir with
  | .directory, none => some (.noDirectory "File")
  | .database, none => some (.noDirectory "Redb")
  | _, _ => none

/-- Settings as a document. -/
def toJson {S : Type} (s : StorageSettings) : Json S :=
  .object (("backend", .string s.kind.name) :: Json.written "dir" .string s.dir)

/-- Settings from a document, with a default for every field. -/
def ofJson? {S : Type} (dialect : Json.Dialect) (document : Json S) : Option StorageSettings := do
  let fields ← document.fields? dialect ["backend", "dir"]
  let kind ← fields.withDefault "backend" default.kind (Json.asChoice dialect StorageKind.named)
  let dir ← fields.optional "dir" Json.asText
  return ⟨kind, dir⟩

end StorageSettings

/-- The same outcome over a medium that has another one as a part. -/
def Outcome.within {M N α : Type} (place : M → N) (outcome : Outcome M α) : Outcome N α :=
  (outcome.1, place outcome.2)

namespace Storage

/-- A folder of a tree, which is made if it is missing. -/
def openFolder (root : Folder) (location : List String) (dir : String) :
    Except StorageError Folder :=
  match (root.create location).bind fun root => root.folderAt location with
  | .ok items => .ok items
  | .error _ => .error (.io dir)

/-- The tables of the database file in a folder. A file that is missing holds two empty ones. -/
def openTables (items : Folder) : Except StorageError Tables :=
  match items.read Tables.fileName with
  | .error .absent => .ok .empty
  | .error .unusable => .error .database
  | .ok bytes =>
    match Tables.ofBytes? bytes with
    | some tables => .ok tables
    | none => .error .database

/-- Opens the medium that settings choose. Paths are seen from a working folder. -/
def openIn (settings : StorageSettings) (working : List String) (root : Folder) :
    Except StorageError Storage :=
  match settings.kind, settings.dir with
  | .directory, some dir => do
    let location := Folder.locate working dir
    return directory location ⟨dir, ← openFolder root location dir⟩
  | .database, some dir => do
    let location := Folder.locate working dir
    let items ← openFolder root location dir
    return database location items (← openTables items)
  | _, _ => return memory .empty

/-- What the folder of the medium holds. -/
def items : Storage → Folder
  | memory _ => []
  | directory _ d => d.items
  | database _ items t => items.insert Tables.fileName (.file t.toBytes)

/-- Puts the folder of the medium back into its tree. -/
def close (s : Storage) (root : Folder) : Folder :=
  let put (location : List String) : Folder :=
    match root.alter true (fun _ => .ok s.items) location with
    | .ok root => root
    | .error _ => root
  match s with
  | memory _ => root
  | directory location _ => put location
  | database location _ _ => put location

instance : Medium Storage where
  read s key := match s with
    | memory m => .within memory (Medium.read m key)
    | directory l d => .within (directory l) (Medium.read d key)
    | database l f t => .within (database l f) (Medium.read t key)
  write s key payload := match s with
    | memory m => .within memory (Medium.write m key payload)
    | directory l d => .within (directory l) (Medium.write d key payload)
    | database l f t => .within (database l f) (Medium.write t key payload)
  delete s key := match s with
    | memory m => .within memory (Medium.delete m key)
    | directory l d => .within (directory l) (Medium.delete d key)
    | database l f t => .within (database l f) (Medium.delete t key)
  clear s := match s with
    | memory m => .within memory (Medium.clear m)
    | directory l d => .within (directory l) (Medium.clear d)
    | database l f t => .within (database l f) (Medium.clear t)
  loadIndex s := match s with
    | memory m => .within memory (Medium.loadIndex m)
    | directory l d => .within (directory l) (Medium.loadIndex d)
    | database l f t => .within (database l f) (Medium.loadIndex t)
  saveIndex s entries := match s with
    | memory m => .within memory (Medium.saveIndex m entries)
    | directory l d => .within (directory l) (Medium.saveIndex d entries)
    | database l f t => .within (database l f) (Medium.saveIndex t entries)

end Storage

end GraphReasoner
