import GraphReasoner.Graph.Store
import GraphReasoner.Rule.RuleSet

/-!
# One step of composition

Every active rule is applied once to a graph: for each pair of edges of its two types that meet,
over three different entities, one relation is derived between the outer ends. What is derived is
not used again in the same step. Relations come in the order of the rules, then of the first edge,
then newest second edge first.

* `GraphReasoner.Graph.compositions` – the pairs of edges that a rule applies to;
* `GraphReasoner.RuleSet.inferGraph` – the step on a graph;
* `GraphReasoner.RuleSet.infer` – the step on a list of relations, whose entities are taken from the
  list.
-/

namespace GraphReasoner

/-- What a step of composition yields. -/
structure Derivation (S : Type) where
  /-- The relations derived, in order. -/
  derived : List (Relation S)
  /-- How many relations each rule derived, for the rules that derived any. -/
  counts : Table Nat
  /-- The number of pairs of edges that were dropped because an entity could not be found. -/
  skipped : Nat

variable {S : Type}

/-- The pairs of edges that a rule applies to: they meet in the middle, and the three entities are
different. -/
def Graph.compositions (g : Graph S) (rule : Rule S) : List (Record S × Record S) :=
  (g.records.filter fun r => r.kind == rule.first && r.source != r.target).flatMap fun head =>
    ((g.leaving head.target).filter fun r => r.kind == rule.second &&
      r.target != head.source && r.target != head.target).map fun last => (head, last)

namespace Derivation

/-- Nothing derived. -/
def empty : Derivation S := ⟨[], [], 0⟩

/-- The relation that a rule derives from a pair of edges between two entities. -/
def conclude [Scalar S] (rule : Rule S) (hop : Record S × Record S) (source target : Entity S) :
    Relation S :=
  Relation.derived source target rule.conclusion
    ((hop.1.confidence * hop.2.confidence) * rule.factor)
    ((Properties.empty.insert "inferred" (.bool true)).insert "rule_id" (.text rule.id))

/-- Adds what one rule derives from some pairs of edges. The two functions find the entities of the
new relation. -/
def addHops [Scalar S] (source? target? : String → Option (Entity S)) (rule : Rule S)
    (hops : List (Record S × Record S)) (d : Derivation S) : Derivation S :=
  let found := hops.filterMap fun hop => do
    return conclude rule hop (← source? hop.1.source) (← target? hop.2.target)
  { derived := d.derived ++ found
    counts := if found.isEmpty then d.counts else d.counts.update rule.id 0 (· + found.length)
    skipped := d.skipped + (hops.length - found.length) }

/-- Adds what one rule derives from a graph. -/
def applyRule [Scalar S] (g : Graph S) (source? target? : String → Option (Entity S))
    (d : Derivation S) (rule : Rule S) : Derivation S :=
  d.addHops source? target? rule (g.compositions rule)

end Derivation

namespace RuleSet

variable [Scalar S]

/-- Applies every active rule once. -/
def compose (set : RuleSet S) (g : Graph S) (source? target? : String → Option (Entity S)) :
    Derivation S :=
  set.active.foldl (Derivation.applyRule g source? target?) .empty

/-- Applies every active rule once to a graph. -/
def inferGraph (set : RuleSet S) (g : Graph S) : Derivation S :=
  set.compose g g.entity? g.entity?

/-- Applies every active rule once to a list of relations. A new relation takes its source from the
first relation with that source, and its target from the first relation with that target. -/
def infer (set : RuleSet S) (relations : List (Relation S)) : Result S (Derivation S) := do
  let g ← Graph.ofRelations relations
  return set.compose g
    (fun id => (relations.map Relation.source).find? fun e => e.id == id)
    (fun id => (relations.map Relation.target).find? fun e => e.id == id)

end RuleSet

end GraphReasoner
