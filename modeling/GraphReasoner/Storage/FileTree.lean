import GraphReasoner.Table

/-!
# Files and folders

Everything the program reads and keeps lies in a tree of folders and files. A folder is a table from
names to what lies under them, so two folders with the same contents are equal, and their names come
in order. The tree is a value: an operation yields the folder as it is afterwards, or says why it
was refused.

A refusal tells apart only what callers tell apart: whether something is not there
(`GraphReasoner.Refusal.absent`), or is there and cannot serve (`GraphReasoner.Refusal.unusable`): a
file in the place of a folder, a folder in the place of a file, or a name that no file can have.

* `GraphReasoner.Folder.read`, `GraphReasoner.Folder.write`, `GraphReasoner.Folder.remove`,
  `GraphReasoner.Folder.rename` – the files of one folder;
* `GraphReasoner.Folder.find`, `GraphReasoner.Folder.alter` – walking down a path;
* `GraphReasoner.Folder.locate` – the path that a text denotes.
-/

namespace GraphReasoner

/-- The contents of a file. -/
abbrev Bytes := List UInt8

namespace Bytes

/-- The bytes of a text. -/
def ofText (text : String) : Bytes :=
  text.toUTF8.toList

/-- The text that bytes encode, if they encode one. -/
def text? (bytes : Bytes) : Option String :=
  String.fromUTF8? ⟨bytes.toArray⟩

end Bytes

/-- A file or a folder. -/
inductive FileTree
  | file (bytes : Bytes)
  | folder (items : List (String × FileTree))

instance : Inhabited FileTree := ⟨.folder []⟩

/-- The contents of a folder. -/
abbrev Folder := Table FileTree

/-- Why the file system does not do what it is asked. -/
inductive Refusal
  /-- There is nothing under the name. -/
  | absent
  /-- What is there cannot serve. -/
  | unusable
deriving DecidableEq, Repr

namespace Folder

/-- The greatest number of bytes of a name. -/
def longestName : Nat := 255

/-- Whether a file can have a name: it is not too long and has no null character. -/
def canName (name : String) : Bool :=
  name.utf8ByteSize ≤ longestName && !name.toList.contains '\x00'

/-! ### The files of one folder -/

/-- The contents of a file. -/
def read (f : Folder) (name : String) : Except Refusal Bytes :=
  if canName name then
    match f.get? name with
    | none => .error .absent
    | some (.file bytes) => .ok bytes
    | some (.folder _) => .error .unusable
  else .error .unusable

/-- Gives a file new contents, making it if it is not there. -/
def write (f : Folder) (name : String) (bytes : Bytes) : Except Refusal Folder :=
  if canName name then
    match f.get? name with
    | none | some (.file _) => .ok (f.insert name (.file bytes))
    | some (.folder _) => .error .unusable
  else .error .unusable

/-- Removes a file. There may be none. -/
def remove (f : Folder) (name : String) : Except Refusal Folder :=
  if canName name then
    match f.get? name with
    | none => .ok f
    | some (.file _) => .ok (f.erase name)
    | some (.folder _) => .error .unusable
  else .error .unusable

/-- Gives a file another name, in place of the file that has it. -/
def rename (f : Folder) (name newName : String) : Except Refusal Folder := do
  let bytes ← f.read name
  write (f.erase name) newName bytes

/-! ### Paths -/

/-- What lies at a path. -/
def find : List String → Folder → Except Refusal FileTree
  | [], f => .ok (.folder f)
  | name :: path, f =>
    if canName name then
      match f.get? name with
      | none => .error .absent
      | some (.folder items) => find path items
      | some (.file bytes) => if path.isEmpty then .ok (.file bytes) else .error .unusable
    else .error .unusable

/-- Changes the folder at a path. The folders on the way may be made. -/
def alter (create : Bool) (change : Folder → Except Refusal Folder) :
    List String → Folder → Except Refusal Folder
  | [], f => change f
  | name :: path, f =>
    if canName name then
      match f.get? name with
      | none =>
        if create then do return f.insert name (.folder (← alter create change path []))
        else .error .absent
      | some (.folder items) => do
        return f.insert name (.folder (← alter create change path items))
      | some (.file _) => .error .unusable
    else .error .unusable

/-- Makes the folders of a path that are missing. -/
def create (f : Folder) (path : List String) : Except Refusal Folder :=
  f.alter true .ok path

/-- The folder at a path. -/
def folderAt (f : Folder) (path : List String) : Except Refusal Folder := do
  match ← f.find path with
  | .folder items => return items
  | .file _ => throw .unusable

/-- The text of the file at a path. -/
def textAt (f : Folder) (path : List String) : Except Refusal String := do
  match ← f.find path with
  | .folder _ => throw .unusable
  | .file bytes =>
    match bytes.text? with
    | some text => return text
    | none => throw .unusable

/-- Writes the file at a path, whose folder has to be there. -/
def writeAt (f : Folder) (path : List String) (bytes : Bytes) : Except Refusal Folder :=
  match path.getLast? with
  | none => .error .unusable
  | some name => f.alter false (fun items => items.write name bytes) path.dropLast

/-- Goes one component along a path: a single dot stays, two dots go back. -/
def step (path : List String) (component : String) : List String :=
  if component = "" ∨ component = "." then path
  else if component = ".." then path.dropLast
  else path ++ [component]

/-- The path that a text denotes, seen from a working folder. -/
def locate (working : List String) (text : String) : List String :=
  let start := if text.startsWith "/" then [] else working
  (text.splitOn "/").foldl step start

/-- What follows the last dot of a name. A dot at the very beginning does not count. -/
def extension? (name : String) : Option String :=
  let reversed := name.toList.reverse
  match reversed.dropWhile (· != '.') with
  | [] | [_] => none
  | _ => if name = ".." then none else some (String.ofList (reversed.takeWhile (· != '.')).reverse)

end Folder

end GraphReasoner
