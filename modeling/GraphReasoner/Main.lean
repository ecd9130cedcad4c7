import GraphReasoner.CommandLine.Run
import Std.Time.DateTime.Timestamp

/-!
# The program

The program reads the files a command line names into a tree, runs the command line on the tree,
prints what it says and writes back the files of the cache that changed. Nothing is decided here.

A folder cannot be listed, so the payload files of a cache are found through its index.
-/

namespace GraphReasoner.Program

open GraphReasoner.CommandLine

/-- The tree with a file from disk. A file that is missing is left out, and one that cannot be read
stands there as a folder. -/
def loadFile (working : List String) (root : Folder) (path : String) : IO Folder := do
  let location := Folder.locate working path
  let item ← try
      pure (some (FileTree.file (← IO.FS.readBinFile path).toList))
    catch
      | .noFileOrDirectory .. => pure none
      | _ => pure (some (FileTree.folder []))
  match item, location.getLast? with
  | some item, some name =>
    let put (items : Folder) : Except Refusal Folder := .ok (items.insert name item)
    return (root.alter true put location.dropLast).toOption.getD root
  | _, _ => return root

/-- The tree with the files of a cache folder: the index, the database, and the payloads of the
index. -/
def loadFolder (working : List String) (root : Folder) (dir : String) : IO Folder := do
  let root ← loadFile working root dir
  let inDir (root : Folder) (name : String) : IO Folder :=
    loadFile working root (dir ++ "/" ++ name)
  match root.folderAt (Folder.locate working dir) with
  | .error _ => return root
  | .ok _ =>
    let root ← inDir (← inDir root Directory.indexName) Tables.fileName
    match root.folderAt (Folder.locate working dir) with
    | .error _ => return root
    | .ok items =>
      let entries := (Directory.index ⟨dir, items⟩).toOption.getD []
      let names := entries.filterMap fun e => (Directory.payloadName e.key).toOption
      names.foldlM inDir root

/-- The files of a tree's folder. -/
def filesAt (root : Folder) (location : List String) : List (String × Bytes) :=
  ((root.folderAt location).toOption.getD []).filterMap fun (name, item) =>
    match item with
    | .file bytes => some (name, bytes)
    | .folder _ => none

/-- Writes the files of a folder that changed, and removes the ones that are gone. -/
def saveFolder (working : List String) (before after : Folder) (dir : String) : IO Unit := do
  let location := Folder.locate working dir
  let old := filesAt before location
  let new := filesAt after location
  unless new.isEmpty do IO.FS.createDirAll dir
  for (name, bytes) in new do
    unless old.lookup name == some bytes do
      IO.FS.writeBinFile (dir ++ "/" ++ name) ⟨bytes.toArray⟩
  for (name, _) in old do
    if (new.lookup name).isNone then IO.FS.removeFile (dir ++ "/" ++ name)

/-- The files that the settings of a command line name: a rules file, and the folder of a cache. -/
def namedFiles (root : Folder) (working : List String) (i : Invocation) :
    Option String × Option String :=
  match (settingsFor root working i.config : Result Float (Settings Float)) with
  | .error _ => (none, none)
  | .ok settings =>
    (settings.rulesFile, if settings.storage.kind = .memory then none else settings.storage.dir)

/-- The present instant. -/
def now : IO Time.Instant := do
  let t ← Std.Time.Timestamp.now
  return ⟨t.val.second.val, t.val.nano.val.toNat⟩

end GraphReasoner.Program

open GraphReasoner GraphReasoner.Program GraphReasoner.CommandLine in
/-- Runs the command line of the process. -/
def main (arguments : List String) : IO UInt32 := do
  let working := Folder.locate [] (← IO.currentDir).toString
  let mut root : Folder := []
  let mut dir : Option String := none
  if let .ok i := Invocation.ofArgs arguments then
    for path in [i.config, i.batch].filterMap id do
      root ← loadFile working root path
    let (rules, folder) := namedFiles root working i
    dir := folder
    if let some path := rules then root ← loadFile working root path
    if let some path := folder then root ← loadFolder working root path
  let (report, after) := run Float arguments root working (← now)
  if let some path := dir then saveFolder working root after path
  for line in report.lines do IO.println line
  if let some complaint := report.complaint then IO.eprintln complaint
  return report.code.toUInt32
