import GraphReasoner.Graph.Indexed
import GraphReasoner.Rule.Derivation

/-!
# Composition on a graph with indices

A rule finds the first edges of its paths in the index of the types, and the second ones among the
edges that leave the node where a first one ends. So the order of what is derived comes from two
orders: oldest first in the index, newest first at a node.

* `GraphReasoner.RuleSet.inferGraphIndexed` – the step of composition on a graph with indices;
* `GraphReasoner.RuleSet.inferIndexed` – the step on a list of relations;
* `GraphReasoner.IndexedGraph.addMissing` – relations that are derived become part of the graph.
-/

namespace GraphReasoner

variable {S : Type}

/-- The pairs of edges that a rule applies to. -/
def IndexedGraph.compositions (g : IndexedGraph S) (rule : Rule S) :
    List (Record S × Record S) :=
  ((g.ofKind rule.first).filter fun r => r.source.id != r.target.id).flatMap fun head =>
    ((g.outgoing head.target.id).filter fun r => r.kind == rule.second &&
      r.target.id != head.source.id && r.target.id != head.target.id).map fun last =>
        (head.toRecord, last.toRecord)

variable [Scalar S]

namespace RuleSet

/-- Applies every active rule once. -/
def composeIndexed (set : RuleSet S) (g : IndexedGraph S)
    (source? target? : String → Option (Entity S)) : Derivation S :=
  set.active.foldl (fun d rule => d.addHops source? target? rule (g.compositions rule)) .empty

/-- Applies every active rule once to a graph. -/
def inferGraphIndexed (set : RuleSet S) (g : IndexedGraph S) : Derivation S :=
  set.composeIndexed g g.entity? g.entity?

/-- Applies every active rule once to a list of relations. A new relation takes its source from the
first relation with that source, and its target from the first relation with that target. -/
def inferIndexed (set : RuleSet S) (relations : List (Relation S)) : Result S (Derivation S) := do
  let g ← IndexedGraph.ofRelations relations
  return set.composeIndexed g
    (fun id => (relations.map Relation.source).find? fun e => e.id == id)
    (fun id => (relations.map Relation.target).find? fun e => e.id == id)

end RuleSet

/-- Adds the relations whose triples are not in the graph, up to the first that is refused, and
counts them. The graph keeps what was added before a refusal. -/
def IndexedGraph.addMissing (g : IndexedGraph S) (added : Nat) :
    List (Relation S) → Result S Nat × IndexedGraph S
  | [] => (.ok added, g)
  | r :: relations =>
    match g.relation? r.source.id r.target.id r.kind with
    | some _ => addMissing g added relations
    | none =>
      match g.addRelation r with
      | .ok g => addMissing g (added + 1) relations
      | .error error => (.error error, g)

end GraphReasoner
