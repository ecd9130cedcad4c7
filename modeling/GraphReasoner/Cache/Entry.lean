import GraphReasoner.Json.Fields
import GraphReasoner.Json.Printer
import GraphReasoner.Json.Reader
import GraphReasoner.Storage.FileTree

/-!
# Index entries

The cache knows a payload by its entry: when it was stored, until when it lives, how long it is,
what kind of data it holds, and how often and when it was asked for. An entry is expired from the
instant of its expiry on.

Entries are kept as JSON documents (`GraphReasoner.Entry.toJson`, `GraphReasoner.Entry.ofJson?`).
They hold integers and texts only, so it does not matter over which numbers the documents are.
-/

namespace GraphReasoner

open GraphReasoner.Time (Instant)

/-- What the cache knows about a payload. -/
structure Entry where
  key : String
  created : Instant
  expires : Instant
  /-- The number of bytes of the payload. -/
  size : Nat
  /-- What kind of data the payload is. -/
  kind : String
  /-- How often the payload was asked for since it was stored. -/
  accesses : Nat
  lastAccess : Instant
deriving DecidableEq, Repr, Inhabited

/-- The budget of a cache and the lifetime that is given to payloads by default. -/
structure CacheSettings where
  /-- The number of bytes of payloads that are kept. -/
  budget : Nat
  /-- The lifetime in seconds. -/
  lifetime : Nat
deriving DecidableEq, Repr

namespace Entry

/-- An entry is expired from the instant of its expiry on. -/
def Expired (e : Entry) (now : Instant) : Prop :=
  e.expires ≤ now

instance (e : Entry) (now : Instant) : Decidable (e.Expired now) :=
  inferInstanceAs (Decidable (_ ≤ _))

/-- The entry after the payload was asked for. -/
def touched (e : Entry) (now : Instant) : Entry :=
  { e with accesses := e.accesses + 1, lastAccess := now }

variable {S : Type}

/-- The names of the fields, in order. -/
def fieldNames : List String :=
  ["key", "created_at", "expires_at", "size_bytes", "data_type", "access_count", "last_accessed"]

/-- An entry as a document. -/
def toJson (e : Entry) : Json S :=
  .object [("key", .string e.key), ("created_at", .string e.created.toText),
    ("expires_at", .string e.expires.toText), ("size_bytes", .int e.size),
    ("data_type", .string e.kind), ("access_count", .int e.accesses),
    ("last_accessed", .string e.lastAccess.toText)]

/-- An entry from a document. -/
def ofJson? (document : Json S) : Option Entry := do
  let fields ← document.fields? Json.strict fieldNames
  let key ← fields.required "key" Json.asText
  let created ← fields.required "created_at" Json.asInstant
  let expires ← fields.required "expires_at" Json.asInstant
  let size ← fields.required "size_bytes" Json.asNat
  let kind ← fields.required "data_type" Json.asText
  let accesses ← fields.required "access_count" Json.asNat
  let lastAccess ← fields.required "last_accessed" Json.asInstant
  return ⟨key, created, expires, size, kind, accesses, lastAccess⟩

end Entry

/-- The table of a list of entries by their keys, the last entry of a key staying. -/
def Entry.table (entries : List Entry) : Table Entry :=
  Table.ofList (entries.map fun e => (e.key, e))

namespace CacheSettings

/-- The settings that hold when none are given: 200 MiB and twelve hours. -/
def default : CacheSettings :=
  ⟨200 * 1024 * 1024, 12 * 60 * 60⟩

instance : Inhabited CacheSettings := ⟨default⟩

variable {S : Type}

/-- Settings as a document. -/
def toJson (s : CacheSettings) : Json S :=
  .object [("max_size_bytes", .int s.budget), ("default_ttl_secs", .int s.lifetime)]

/-- Settings from a document, with a default for every field. -/
def ofJson? (dialect : Json.Dialect) (document : Json S) : Option CacheSettings := do
  let fields ← document.fields? dialect ["max_size_bytes", "default_ttl_secs"]
  let budget ← fields.withDefault "max_size_bytes" default.budget Json.asNat
  let lifetime ← fields.withDefault "default_ttl_secs" default.lifetime Json.asNat
  return ⟨budget, lifetime⟩

end CacheSettings

end GraphReasoner
