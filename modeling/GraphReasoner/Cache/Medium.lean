import GraphReasoner.Cache.Entry
import GraphReasoner.Error

/-!
# Media

A medium holds payloads under their keys and keeps the index of a cache. It knows nothing of
lifetimes and budgets. Every call may fail, and says what it leaves behind either way: the outcome
of a call is a result together with the medium after it.

* `GraphReasoner.Medium` – the six calls;
* `GraphReasoner.Memory` – the medium that lives as long as the program and keeps no index.
-/

namespace GraphReasoner

/-- What a call yields, and the medium after the call. -/
abbrev Outcome (M α : Type) := Except StorageError α × M

/-- A place for payloads and an index. -/
class Medium (M : Type) where
  /-- The payload under a key, if there is one. -/
  read : M → String → Outcome M (Option Bytes)
  /-- Stores a payload under a key, in place of the one there. -/
  write : M → String → Bytes → Outcome M Unit
  /-- Deletes the payload under a key. There may be none. -/
  delete : M → String → Outcome M Unit
  /-- Deletes every payload and the index. -/
  clear : M → Outcome M Unit
  /-- The index that was saved last, empty if there is none. -/
  loadIndex : M → Outcome M (List Entry)
  /-- Saves an index in place of the one before. -/
  saveIndex : M → List Entry → Outcome M Unit

/-- The payloads that the program holds while it runs. -/
structure Memory where
  payloads : Table Bytes

namespace Memory

/-- The medium without payloads. -/
def empty : Memory := ⟨[]⟩

instance : Inhabited Memory := ⟨empty⟩

instance : Medium Memory where
  read m key := (.ok (m.payloads.get? key), m)
  write m key payload := (.ok (), ⟨m.payloads.insert key payload⟩)
  delete m key := (.ok (), ⟨m.payloads.erase key⟩)
  clear _ := (.ok (), empty)
  loadIndex m := (.ok [], m)
  saveIndex m _ := (.ok (), m)

end Memory

end GraphReasoner
