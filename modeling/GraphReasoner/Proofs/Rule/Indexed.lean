import GraphReasoner.Proofs.Graph.Rebuild
import GraphReasoner.Proofs.Rule.Batch
import GraphReasoner.Rule.Indexed

/-!
# Composition on a graph with indices derives the same

A rule looks for its paths in an index and in the lists at the nodes. These are views of the list of
all relations, and so the paths are those of the plain graph, in the same order
(`GraphReasoner.IndexedGraph.Sound.compositions_eq`). What is known of a step on the plain graph
carries over.

* `GraphReasoner.RuleSet.Reachable.exact_inferGraphIndexed` – what a step derives;
* `GraphReasoner.RuleSet.inferIndexed_eq_inferGraphIndexed` – the step on a list against the step on
  its graph.
-/

namespace GraphReasoner

variable {S : Type}

namespace IndexedGraph

variable {g : IndexedGraph S}

/-- **A rule finds its paths through the indices**, in the same order. -/
theorem Sound.compositions_eq (h : g.Sound) (rule : Rule S) :
    g.compositions rule = g.toGraph.compositions rule := by
  have hleaving : ∀ id, g.toGraph.leaving id = (g.outgoing id).map Relation.toRecord := fun id => by
    rw [h.outgoing_eq, Graph.leaving, toGraph, List.filter_map, List.map_reverse]
    rfl
  have hheads : (g.toGraph.records.filter fun r => r.kind == rule.first && r.source != r.target) =
      ((g.ofKind rule.first).filter fun r => r.source.id != r.target.id).map
        Relation.toRecord := by
    rw [h.ofKind_eq, List.filter_filter, toGraph, List.filter_map]
    simp only [Bool.and_comm (_ != _)]
    rfl
  rw [compositions, Graph.compositions, hheads, List.flatMap_map]
  refine List.flatMap_congr fun head _ => ?_
  rw [hleaving, List.filter_map, List.map_map]
  rfl

variable [Scalar S]

theorem Sound.composeIndexed_eq (h : g.Sound) (set : RuleSet S)
    (source? target? : String → Option (Entity S)) :
    set.composeIndexed g source? target? = set.compose g.toGraph source? target? := by
  rw [RuleSet.composeIndexed, RuleSet.compose]
  simp only [h.compositions_eq]
  rfl

/-- **The step on the plain graph derives the same.** -/
theorem Sound.inferGraphIndexed_eq (h : g.Sound) (set : RuleSet S) :
    set.inferGraphIndexed g = set.inferGraph g.toGraph := by
  have hentity : g.toGraph.entity? = g.entity? := funext h.entity?_toGraph
  rw [RuleSet.inferGraphIndexed, h.composeIndexed_eq, RuleSet.inferGraph, hentity]

/-- **The graph of a list with indices** follows the plain one. -/
theorem sound_ofRelations (relations : List (Relation S)) :
    (∀ g, ofRelations relations = .ok g → g.Sound) ∧
      (ofRelations relations).map toGraph = Graph.ofRelations relations :=
  sound_empty.foldlM (fun hg r => hg.addRelation r) relations

end IndexedGraph

namespace RuleSet

variable [Scalar S]

/-- **The step on a list derives the same**, whether its graph has indices or not. -/
theorem inferIndexed_eq (set : RuleSet S) (relations : List (Relation S)) :
    set.inferIndexed relations = set.infer relations := by
  obtain ⟨hsound, hgraph⟩ := IndexedGraph.sound_ofRelations relations
  rw [inferIndexed, infer, ← hgraph]
  rcases hg : IndexedGraph.ofRelations relations with error | g
  · rfl
  · exact congrArg Except.ok ((hsound g hg).composeIndexed_eq ..)

/-- **The step on a list and the step on its graph agree**, with indices, too. When all relations
are valid, the list has a graph. If the entities with one identifier are equal, both steps derive
the same; if they compare equal, the derivations differ at most in entities that compare equal. Only
an invalid relation makes the step on the list fail. -/
theorem inferIndexed_eq_inferGraphIndexed (set : RuleSet S) (relations : List (Relation S)) :
    let entities := relations.flatMap fun r => [r.source, r.target]
    ((∀ r ∈ relations, r.validate = .ok ()) → ∃ g, IndexedGraph.ofRelations relations = .ok g ∧
      ((∀ e ∈ entities, ∀ e' ∈ entities, e.id = e'.id → e = e') →
        set.inferIndexed relations = .ok (set.inferGraphIndexed g)) ∧
      ((∀ e ∈ entities, ∀ e' ∈ entities, e.id = e'.id → e.Same e') →
        ∃ d, set.inferIndexed relations = .ok d ∧
          d.Alike Entity.Same (set.inferGraphIndexed g))) ∧
    ((∃ error, set.inferIndexed relations = .error error) ↔
      ∃ r ∈ relations, ∃ error, r.validate = .error error) := by
  intro entities
  obtain ⟨hsound, hgraph⟩ := IndexedGraph.sound_ofRelations relations
  rw [inferIndexed_eq]
  refine ⟨fun hvalid => ?_, infer_error_iff⟩
  obtain ⟨plain, hplain⟩ := exists_ofRelations hvalid
  obtain ⟨g, hg, hg'⟩ := map_eq_ok_iff.1 (hgraph.trans hplain)
  refine ⟨g, hg, ?_⟩
  rw [(hsound g hg).inferGraphIndexed_eq, hg']
  exact infer_agrees set hplain

end RuleSet

/-- **A step of composition on a graph with indices** derives exactly what the active rules
conclude. -/
theorem RuleSet.Reachable.exact_inferGraphIndexed [Numeral S] {set : RuleSet S}
    (hset : set.Reachable) :
    (∀ calls : List (Graph.Insertion S),
      let g := IndexedGraph.grow IndexedGraph.empty calls
      (g.relations.map Relation.triple).Nodup ∧
      (set.inferGraphIndexed g).Exact set.active g.relations ∧
      ∀ rule ∈ set.active, (set.inferGraphIndexed g).counts.get? rule.id =
        if rule.consequences g.relations = [] then none
        else some (rule.consequences g.relations).length) ∧
    ∀ relations d, set.inferIndexed relations = .ok d → d.skipped = 0 := by
  refine ⟨fun calls => ?_, fun relations d h => skipped_infer (set.inferIndexed_eq relations ▸ h)⟩
  obtain ⟨hsound, hgraph⟩ := IndexedGraph.sound_grow calls
  intro g
  rw [hsound.inferGraphIndexed_eq, ← hsound.relations_toGraph, hgraph]
  exact hset.exact_of_tells (Graph.tells_grow calls)

end GraphReasoner
