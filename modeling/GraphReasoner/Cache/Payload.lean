import GraphReasoner.Cache.Eviction

/-!
# Storing and asking for payloads

A failure of the medium never leaves the cache: asking then finds nothing, and storing tells that
nothing was stored. Each operation is given the reading of the clock at which it happens.

* `GraphReasoner.Cache.get` – the payload of a key; a hit is counted in its entry;
* `GraphReasoner.Cache.store` – stores a payload for a lifetime and keeps the budget;
* `GraphReasoner.Cache.remove`, `GraphReasoner.Cache.clear` – one entry, all entries;
* `GraphReasoner.Cache.getJson`, `GraphReasoner.Cache.storeJson` – payloads that are documents.
-/

namespace GraphReasoner

open GraphReasoner.Time (Instant Duration)

namespace Cache

variable {M : Type} [Medium M]

/-- The kind of payloads that are given none. -/
def generalKind : String := "general"

/-- The payload of a key. What is expired or has lost its payload is forgotten on the way; when the
medium cannot be read, nothing changes. -/
def get (c : Cache M) (key : String) (now : Instant) : Option Bytes × Cache M :=
  match c.entry? key with
  | none => (none, c)
  | some e =>
    if e.Expired now then (none, (c.drop key).2.persist)
    else
      match Medium.read c.medium key with
      | (.ok (some payload), medium) =>
        (some payload,
          { c with medium, index := c.index.insert key (e.touched now), dirty := true })
      | (.ok none, medium) => (none, { c with medium, index := c.index.erase key }.persist)
      | (.error _, medium) => (none, { c with medium })

/-- The entry of a payload that is stored now, for a lifetime or the one of the settings. -/
def newEntry (settings : CacheSettings) (key : String) (payload : Bytes)
    (lifetime : Option Duration) (kind : String) (now : Instant) : Entry :=
  { key
    created := now
    expires := now.after (lifetime.getD (.ofSeconds settings.lifetime))
    size := payload.length
    kind
    accesses := 0
    lastAccess := now }

/-- Stores a payload and tells whether it is kept. -/
def store (c : Cache M) (key : String) (payload : Bytes) (lifetime : Option Duration)
    (kind : String) (now : Instant) : Bool × Cache M :=
  match Medium.write c.medium key payload with
  | (.error _, medium) => (false, { c with medium })
  | (.ok _, medium) =>
    let entry := newEntry c.settings key payload lifetime kind now
    let c := keepBudget { c with medium, index := c.index.insert key entry } now
    let c := c.persist
    (c.index.contains key, c)

/-- Removes an entry with its payload and tells whether there was one. -/
def remove (c : Cache M) (key : String) : Bool × Cache M :=
  let existed := c.index.contains key
  let (dropped, c) := c.drop key
  (dropped && existed, c.persist)

/-- Removes every entry. -/
def clear (c : Cache M) : Cache M :=
  let (_, medium) := Medium.clear c.medium
  { c with medium, index := [] }.persist

variable {S : Type} [Numeral S]

/-- The payload of a key as a document that something is read from. -/
def getJson {α : Type} (c : Cache M) (key : String) (decode : Json S → Option α) (now : Instant) :
    Option α × Cache M :=
  let (payload, c) := c.get key now
  let value := do decode (← Json.read (← (← payload).text?))
  (value, c)

/-- Stores a document. -/
def storeJson (c : Cache M) (key : String) (document : Json S) (lifetime : Option Duration)
    (kind : String) (now : Instant) : Bool × Cache M :=
  c.store key (.ofText (Json.compact document)) lifetime kind now

end Cache

end GraphReasoner
