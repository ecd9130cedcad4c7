import GraphReasoner.Cache.Eviction
import GraphReasoner.Decimal.Layout

/-!
# What a cache holds, in numbers

The entries are counted as a whole and for each kind of data.
-/

namespace GraphReasoner

open GraphReasoner.Time (Instant)

/-- The numbers of one kind of data. -/
structure KindStatistics where
  count : Nat
  /-- The number of bytes. -/
  size : Nat
  accesses : Nat
deriving DecidableEq, Repr, Inhabited

/-- The numbers of a cache at an instant. -/
structure CacheStatistics where
  count : Nat
  /-- The number of bytes. -/
  size : Nat
  budget : Nat
  kinds : Table KindStatistics
  time : Instant
deriving DecidableEq, Repr, Inhabited

/-- Counts one entry. -/
def KindStatistics.add (s : KindStatistics) (e : Entry) : KindStatistics :=
  ⟨s.count + 1, s.size + e.size, s.accesses + e.accesses⟩

/-- The numbers of each kind among some entries. -/
def Entry.kindStatistics (entries : List Entry) : Table KindStatistics :=
  entries.foldl (fun t e => t.update e.kind ⟨0, 0, 0⟩ fun s => s.add e) []

/-- The numbers of a cache. -/
def Cache.statistics {M : Type} [Medium M] (c : Cache M) (now : Instant) : CacheStatistics :=
  { count := c.size
    size := c.totalSize
    budget := c.settings.budget
    kinds := Entry.kindStatistics c.index.values
    time := now }

namespace CacheStatistics

variable {S : Type} [Scalar S]

/-- How much of the budget is used, in percent. -/
def usage (s : CacheStatistics) : S :=
  if s.budget = 0 then 0.0 else (s.size : S) / (s.budget : S) * 100.0

/-- The numbers of a kind as a document. -/
def kindToJson (s : KindStatistics) : Json S :=
  .object [("count", .int s.count), ("total_size", .int s.size), ("total_access", .int s.accesses)]

/-- The numbers of a cache as a document. -/
def toJson (s : CacheStatistics) : Json S :=
  .object [("total_items", .int s.count), ("total_size_bytes", .int s.size),
    ("max_size_bytes", .int s.budget), ("usage_percent", .float s.usage),
    ("type_statistics", .object (s.kinds.map fun (kind, k) => (kind, kindToJson k))),
    ("timestamp", .string s.time.toText)]

end CacheStatistics

end GraphReasoner
