import GraphReasoner.Cache.Basic

/-!
# Keeping the budget

When the payloads are longer than the budget, what is expired goes first. If that is not enough, the
least used payloads follow, one by one, until the rest fits: those asked for less often, of these
those not asked for the longest, and of these the first by key. A payload that cannot be deleted is
passed over and still counts.

* `GraphReasoner.Entry.lessUsed` – the order of eviction;
* `GraphReasoner.Cache.keepBudget` – both phases.
-/

namespace GraphReasoner

open GraphReasoner.Time (Instant)

/-- The number of bytes that some entries stand for. -/
def Entry.totalSize : List Entry → Nat
  | [] => 0
  | e :: entries => e.size + totalSize entries

/-- How two entries compare as candidates for eviction: by accesses, then by the last access, then
by key. -/
def Entry.compareUse (a b : Entry) : Ordering :=
  ((compare a.accesses b.accesses).then (compare a.lastAccess b.lastAccess)).then
    (compare a.key b.key)

/-- Whether an entry is evicted no later than another. -/
def Entry.lessUsed (a b : Entry) : Bool :=
  a.compareUse b != .gt

namespace Cache

variable {M : Type} [Medium M]

/-- The number of bytes of all payloads. -/
def totalSize (c : Cache M) : Nat :=
  Entry.totalSize c.index.values

/-- Drops entries in turn until so many bytes fit the budget. A payload that cannot be deleted still
counts. -/
def evict (c : Cache M) : Nat → List Entry → Cache M
  | _, [] => c
  | total, e :: entries =>
    if total ≤ c.settings.budget then c
    else
      match c.drop e.key with
      | (true, c) => evict c (total - e.size) entries
      | (false, c) => evict c total entries

/-- Brings the payloads down to the budget. -/
def keepBudget (c : Cache M) (now : Instant) : Cache M :=
  if c.totalSize ≤ c.settings.budget then c
  else
    let c := c.purge now
    c.evict c.totalSize (c.index.values.mergeSort Entry.lessUsed)

end Cache

end GraphReasoner
