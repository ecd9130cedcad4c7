import GraphReasoner.Cache.Storage
import GraphReasoner.Chain.Settings
import GraphReasoner.Query.Settings
import GraphReasoner.Toml.Printer

/-!
# Settings

The settings of the reasoner have a section for each of its parts and lie in a TOML file. Every
section and every field may be missing, and then its default holds. Settings with a defect are never
used: reading a file refuses them, naming the first defect.

* `GraphReasoner.Settings.defect?` – the first defect;
* `GraphReasoner.Settings.load`, `GraphReasoner.Settings.save` – a settings file in a tree of files.
-/

namespace GraphReasoner

/-- The settings of the reasoner. -/
structure Settings (S : Type) where
  /-- The path of a file with rules in place of the ones that are built in. -/
  rulesFile : Option String
  inference : ChainSettings S
  query : QuerySettings
  planner : PlannerSettings S
  cache : CacheSettings
  storage : StorageSettings

namespace Settings

section

variable {S : Type} [Scalar S]

/-- The settings that hold when none are given. -/
def default : Settings S :=
  ⟨none, .default, .default, .default, .default, .default⟩

instance : Inhabited (Settings S) := ⟨default⟩

instance : BEq (Settings S) :=
  ⟨fun a b => a.rulesFile == b.rulesFile && a.inference == b.inference && a.query == b.query &&
    a.planner == b.planner && a.cache == b.cache && a.storage == b.storage⟩

/-- The first defect, if there is one. Sections are looked at in their order. -/
def defect? (s : Settings S) : Option (SettingsDefect S) :=
  s.inference.defect? <|> s.query.defect? <|> s.planner.defect? <|>
    (if s.cache.budget = 0 then some .noBudget else none) <|> s.storage.defect?

/-- Refuses settings with a defect. -/
def validate (s : Settings S) : Result S Unit :=
  match s.defect? with
  | some defect => .error (.invalidSettings defect)
  | none => .ok ()

/-- Settings as a document. -/
def toJson (s : Settings S) : Json S :=
  .object (Json.written "rules_file" .string s.rulesFile ++
    [("inference", s.inference.toJson), ("query", s.query.toJson), ("planner", s.planner.toJson),
      ("cache", s.cache.toJson), ("storage", s.storage.toJson)])

/-- Settings from a document. -/
def ofJson? (dialect : Json.Dialect) (document : Json S) : Option (Settings S) := do
  let fields ← document.fields? dialect
    ["rules_file", "inference", "query", "planner", "cache", "storage"]
  let rulesFile ← fields.optional "rules_file" Json.asText
  let inference ← fields.withDefault "inference" .default (ChainSettings.ofJson? dialect)
  let query ← fields.withDefault "query" .default (QuerySettings.ofJson? dialect)
  let planner ← fields.withDefault "planner" .default (PlannerSettings.ofJson? dialect)
  let cache ← fields.withDefault "cache" .default (CacheSettings.ofJson? dialect)
  let storage ← fields.withDefault "storage" .default (StorageSettings.ofJson? dialect)
  return ⟨rulesFile, inference, query, planner, cache, storage⟩

end

variable {S : Type} [Numeral S]

/-- The settings of the text of a file. -/
def ofText (text path : String) : Result S (Settings S) :=
  match (Toml.read text).bind (ofJson? Json.relaxed) with
  | none => .error (.settingsText path)
  | some s => do
    s.validate
    return s

/-- Reads a settings file. Paths are seen from a working folder. -/
def load (root : Folder) (working : List String) (path : String) : Result S (Settings S) :=
  match root.textAt (Folder.locate working path) with
  | .ok text => ofText text path
  | .error _ => .error (.settingsUnread path)

/-- Writes a settings file, making the folders on its path. -/
def save (s : Settings S) (root : Folder) (working : List String) (path : String) :
    Result S Folder :=
  match Toml.write? s.toJson with
  | none => .error (.settingsText path)
  | some text =>
    let location := Folder.locate working path
    match (root.create location.dropLast).bind fun root => root.writeAt location (.ofText text) with
    | .ok root => .ok root
    | .error _ => .error (.settingsUnwritten path)

end Settings

end GraphReasoner
