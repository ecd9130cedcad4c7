import GraphReasoner.Engine.Basic

/-!
# Opening and closing an engine

An engine is opened on settings and a batch, and on the files that the settings name: the folder of
its cache and a file of rules. What is wrong is reported in a fixed order: the settings, the batch,
the folder of the cache, the rules, the relations that enter the layers.

The cache is opened before the rules are read, so opening may change files even when it fails.
Opening therefore yields the tree of files in either case.
-/

namespace GraphReasoner

open GraphReasoner.Time (Instant)

variable {S : Type} [Numeral S]

/-- The rules of a file: a JSON array if its extension is `json`, and a TOML document otherwise. -/
def RuleSet.load (root : Folder) (working : List String) (path : String) (now : Instant) :
    Result S (RuleSet S) :=
  let location := Folder.locate working path
  match root.textAt location with
  | .error _ => .error (.ruleText path)
  | .ok text =>
    if location.getLast?.bind Folder.extension? = some "json" then ofJsonText text path now
    else ofTomlText text path now

namespace Engine

/-- The rules that settings name, or the ones that are built in. -/
def rulesFor (settings : Settings S) (root : Folder) (working : List String) (now : Instant) :
    Result S (RuleSet S) :=
  match settings.rulesFile with
  | some path => RuleSet.load root working path now
  | none => .ok (RuleSet.builtin now)

/-- Saves the index of the cache if that is due, and puts the folder of the cache back into the
tree. -/
def close (cache : Cache Storage) (root : Folder) : Folder :=
  cache.flush.medium.close root

/-- The parts that are needed before the rules: the graph and the cache. -/
def openParts (settings : Settings S) (batch : Batch S) (root : Folder) (working : List String)
    (now : Instant) : Result S (Graph S × Cache Storage) := do
  settings.validate
  let graph ← Graph.ofBatch batch
  match Storage.openIn settings.storage working root with
  | .ok medium => return (graph, .openOn medium settings.cache now)
  | .error error => throw (.storage error)

/-- Opens an engine over a batch. Paths are seen from a working folder. The settings are meant to
ask for a history whose buffer can be reserved, as for `GraphReasoner.Query.Planner.empty`. -/
def openOn (settings : Settings S) (batch : Batch S) (root : Folder) (working : List String)
    (now : Instant) : Result S (Engine S Storage) × Folder :=
  match openParts settings batch root working now with
  | .error error => (.error error, root)
  | .ok (graph, cache) =>
    let engine := do make settings graph cache (← rulesFor settings root working now)
    (engine, close cache root)

end Engine

end GraphReasoner
