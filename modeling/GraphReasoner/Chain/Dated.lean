import GraphReasoner.Chain.Layer
import GraphReasoner.Chain.Settings

/-!
# Chains in time

A relation with bounds can be a step of a chain in time. A chain is in order when each step ends no
later than the next one starts; a step whose end is not known breaks no chain. Every chain in order
yields one relation between its ends, from the earliest start to the latest end that is known, with
the geometric mean of the confidences, however weak.

* `GraphReasoner.Dated` – a valid relation with its bounds;
* `GraphReasoner.Dated.InOrder` – the order of a chain;
* `GraphReasoner.Dated.infer` – what the chains of a layer yield.
-/

namespace GraphReasoner

open GraphReasoner.Time (Instant)

/-- A relation and when it holds. -/
structure Dated (S : Type) where
  /-- The relation, which carries the same bounds. -/
  relation : Relation S
  bounds : Bounds S

namespace Dated

variable {S : Type}

/-- Gives a relation bounds, and refuses it if it is not valid with them. -/
def make [Scalar S] (r : Relation S) (bounds : Bounds S) : Result S (Dated S) := do
  let r := { r with temporal := some bounds }
  r.validate
  return ⟨r, bounds⟩

/-- The dated relation of a relation that has bounds. -/
def ofRelation? [Scalar S] (r : Relation S) : Option (Result S (Dated S)) :=
  r.temporal.map (make r)

/-- Whether a step ends no later than the next one starts. -/
def Precedes (a b : Dated S) : Prop :=
  ∀ stop ∈ a.bounds.stop, stop ≤ b.bounds.start

instance (a b : Dated S) : Decidable (a.Precedes b) :=
  match h : a.bounds.stop with
  | none => isTrue (by simp [Precedes, h])
  | some stop => decidable_of_iff (stop ≤ b.bounds.start) (by simp [Precedes, h])

/-- Every step of the chain ends no later than the next one starts. -/
def InOrder (chain : List (Dated S)) : Prop :=
  ∀ step ∈ Path.pairs chain, step.1.Precedes step.2

instance (chain : List (Dated S)) : Decidable (InOrder chain) :=
  inferInstanceAs (Decidable (∀ step ∈ Path.pairs chain, step.1.Precedes step.2))

/-- The earliest of some instants. -/
def earliest? : List Instant → Option Instant
  | [] => none
  | t :: ts => some (ts.foldl Instant.earlier t)

/-- The latest of some instants. -/
def latest? : List Instant → Option Instant
  | [] => none
  | t :: ts => some (ts.foldl Instant.later t)

/-- The relation that a chain in order yields. -/
def conclude [Scalar S] (source target : Entity S) (kind : String) (chain : List (Dated S)) :
    Option (Dated S) := do
  let start ← earliest? (chain.map fun d => d.bounds.start)
  let bounds : Bounds S := ⟨start, latest? (chain.filterMap fun d => d.bounds.stop), none⟩
  let properties := Properties.ofList
    [("inferred", .bool true), ("inference", .text "temporal"),
      ("path_length", .ofNat chain.length)]
  let confidence := geometricMean (chain.map fun d => d.relation.confidence)
  let r := Relation.derived source target kind confidence properties
  return ⟨{ r with temporal := some bounds }, bounds⟩

/-- The relations that the chains in order between two entities yield. -/
def infer [Scalar S] (layer : Layer (Dated S)) (settings : ChainSettings S)
    (source target : Entity S) (kind : String) : List (Dated S) :=
  ((layer.paths source.id target.id settings.maxPathLength).filter
    fun chain => InOrder chain).filterMap (conclude source target kind)

/-- A dated relation as a document. -/
def toJson (d : Dated S) : Json S :=
  .object ([("relation", d.relation.toJson), ("start_time", .string d.bounds.start.toText)] ++
    Json.written "end_time" (fun t => .string t.toText) d.bounds.stop ++
    Json.written "duration_secs" .float d.bounds.duration)

end Dated

end GraphReasoner
