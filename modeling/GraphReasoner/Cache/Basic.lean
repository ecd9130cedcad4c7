import GraphReasoner.Cache.Medium

/-!
# The cache and its index

A cache is a medium and an index of what it holds. The index in memory is what counts; the one on
the medium is a copy, brought up to date by `GraphReasoner.Cache.persist`, and
`GraphReasoner.Cache.dirty` says that the copy may differ.

A payload goes before its entry: `GraphReasoner.Cache.drop` deletes the payload first and keeps the
entry when that fails, so that the deletion is tried again later.

* `GraphReasoner.Cache.openOn` – a cache over a medium, with the entries saved there that still
  live.
-/

namespace GraphReasoner

open GraphReasoner.Time (Instant)

/-- A medium with an index of its payloads. -/
structure Cache (M : Type) where
  medium : M
  /-- The entries, by their keys. -/
  index : Table Entry
  settings : CacheSettings
  /-- Whether the index on the medium may differ from this one. -/
  dirty : Bool

namespace Cache

variable {M : Type} [Medium M]

/-- Saves the index. If that fails, the cache stays dirty. -/
def persist (c : Cache M) : Cache M :=
  match Medium.saveIndex c.medium c.index.values with
  | (.ok _, medium) => { c with medium, dirty := false }
  | (.error _, medium) => { c with medium, dirty := true }

/-- Saves the index if it has changed. -/
def flush (c : Cache M) : Cache M :=
  if c.dirty then c.persist else c

/-- Deletes a payload and then its entry, and tells whether that succeeded. The entry stays if the
payload cannot be deleted. -/
def drop (c : Cache M) (key : String) : Bool × Cache M :=
  match Medium.delete c.medium key with
  | (.ok _, medium) => (true, { c with medium, index := c.index.erase key })
  | (.error _, medium) => (false, { c with medium })

/-- Drops some keys in turn. -/
def dropAll (c : Cache M) (keys : List String) : Cache M :=
  keys.foldl (fun c key => (c.drop key).2) c

/-- The entries that are expired. -/
def expired (c : Cache M) (now : Instant) : List Entry :=
  c.index.values.filter fun e => e.Expired now

/-- Drops what is expired. -/
def purge (c : Cache M) (now : Instant) : Cache M :=
  c.dropAll ((c.expired now).map Entry.key)

/-- Opens a cache over a medium: takes the index saved there, drops what is expired and saves the
rest. An index that cannot be read counts as empty. -/
def openOn (medium : M) (settings : CacheSettings) (now : Instant) : Cache M :=
  let (saved, medium) := Medium.loadIndex medium
  let entries := match saved with
    | .ok entries => entries
    | .error _ => []
  (purge { medium, index := Entry.table entries, settings, dirty := false } now).persist

/-- The entry of a key. -/
def entry? (c : Cache M) (key : String) : Option Entry :=
  c.index.get? key

/-- The number of entries. -/
def size (c : Cache M) : Nat :=
  c.index.length

/-- Whether there is an entry for a key that is not expired. -/
def contains (c : Cache M) (key : String) (now : Instant) : Bool :=
  match c.entry? key with
  | some e => ¬ e.Expired now
  | none => false

end Cache

end GraphReasoner
