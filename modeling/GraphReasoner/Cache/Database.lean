import GraphReasoner.Cache.Medium
import GraphReasoner.Storage.Tables

/-!
# Two tables as a medium

Payloads and entries lie in the two tables of a database. Any text can be a key. An entry is kept as
the text of its JSON document under its own key, and saving an index replaces the whole table.
-/

namespace GraphReasoner.Tables

/-- The text of an entry. -/
def entryText (e : Entry) : String :=
  Json.compact (e.toJson : Json Float)

/-- The entry of a text. -/
def entryOfBytes? (bytes : Bytes) : Option Entry := do
  Entry.ofJson? (← Json.read (← bytes.text?) : Json Float)

/-- The table of an index. -/
def indexTable (entries : List Entry) : Table Bytes :=
  Table.ofList (entries.map fun e => (e.key, Bytes.ofText (entryText e)))

/-- The name of the database file in its folder. -/
def fileName : String := "kg-cache.redb"

/-- The entries of an index table. -/
def entries (t : Tables) : Except StorageError (List Entry) :=
  t.index.values.mapM fun bytes =>
    match entryOfBytes? bytes with
    | some e => .ok e
    | none => .error (.corruptIndex fileName)

instance : Medium Tables where
  read t key := (.ok (t.payloads.get? key), t)
  write t key payload := (.ok (), { t with payloads := t.payloads.insert key payload })
  delete t key := (.ok (), { t with payloads := t.payloads.erase key })
  clear _ := (.ok (), empty)
  loadIndex t := (t.entries, t)
  saveIndex t entries := (.ok (), { t with index := indexTable entries })

end GraphReasoner.Tables
