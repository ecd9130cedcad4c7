import GraphReasoner.Query.Search
import GraphReasoner.Proofs.Graph.Neighborhood
import GraphReasoner.Proofs.Query.Answer

/-!
# Answers are drawn from the graph

Every search collects entities and relations of the graph and makes nothing up: each node of an
answer is the node of an entity of the graph, and each edge the edge of one of its relations
(`GraphReasoner.Graph.drawnFrom_answer`). So an answer can be stored when the graph holds nothing
that cannot be (`GraphReasoner.Graph.Storable`). An answer depends on the graph, the settings and
the question alone: the reading of the clock only enters the time at which it was found
(`GraphReasoner.Graph.agrees_answer`).
-/

namespace GraphReasoner

open GraphReasoner.Query
open GraphReasoner.Time (Instant)

variable {S : Type}

/-! ### Where relations come from -/

namespace Graph

variable {g : Graph S} {rel : Relation S}

theorem mem_relations_of_filterMap {records : List (Record S)} (h : ∀ r ∈ records, r ∈ g.records)
    (hrel : rel ∈ records.filterMap g.resolve?) : rel ∈ g.relations := by
  obtain ⟨r, hr, hres⟩ := List.mem_filterMap.1 hrel
  exact mem_relations_iff.2 ⟨r, h r hr, hres⟩

theorem mem_records_of_leaving {id : String} {r : Record S} (h : r ∈ g.leaving id) :
    r ∈ g.records :=
  (List.mem_filter.1 (List.mem_reverse.1 h)).1

theorem mem_records_of_entering {id : String} {r : Record S} (h : r ∈ g.entering id) :
    r ∈ g.records :=
  (List.mem_filter.1 (List.mem_reverse.1 h)).1

theorem mem_relations_of_outgoing {id : String} (h : rel ∈ g.outgoing id) : rel ∈ g.relations :=
  mem_relations_of_filterMap (fun _ => mem_records_of_leaving) h

theorem mem_relations_of_incoming {id : String} (h : rel ∈ g.incoming id) : rel ∈ g.relations :=
  mem_relations_of_filterMap (fun _ => mem_records_of_entering) h

theorem mem_relations_of_between {source target : String} (h : rel ∈ g.between source target) :
    rel ∈ g.relations :=
  mem_relations_of_filterMap (fun _ hr => mem_records_of_leaving (List.mem_filter.1 hr).1) h

/-! ### Neighborhoods -/

theorem mem_relations_of_neighborhood {seeds kinds : List String} {depth : Nat}
    (h : rel ∈ (g.neighborhood seeds depth kinds).relations) : rel ∈ g.relations := by
  obtain ⟨f, hf, hres⟩ := List.mem_filterMap.1 h
  exact mem_relations_iff.2 ⟨f.2, (discovery_levels g kinds _ depth).mem_records f hf, hres⟩

/-! ### What touches some entities -/

theorem mem_relations_of_touch {kinds : List String} {t : Touched S} {id : String}
    (ht : ∀ rel ∈ t.relations, rel ∈ g.relations) :
    ∀ rel ∈ (g.touch kinds t id).relations, rel ∈ g.relations := by
  unfold touch
  refine List.foldlRecOn (motive := fun t : Touched S => ∀ rel ∈ t.relations, rel ∈ g.relations)
    (g.outgoing id ++ g.incoming id) _ ht ?_
  intro t ht r hr rel hrel
  have hr' : r ∈ g.relations := by
    rcases List.mem_append.1 hr with h | h
    · exact mem_relations_of_outgoing h
    · exact mem_relations_of_incoming h
  dsimp only at hrel
  -- a relation that is not wanted, or already there, is passed over
  split at hrel
  · exact ht rel hrel
  split at hrel
  · exact ht rel hrel
  · rcases List.mem_append.1 hrel with h | h
    · exact ht rel h
    · rw [List.mem_singleton.1 h]
      exact hr'

theorem mem_relations_of_touched {kinds known : List String} {t : Touched S}
    (ht : ∀ rel ∈ t.relations, rel ∈ g.relations) :
    ∀ rel ∈ (known.foldl (g.touch kinds) t).relations, rel ∈ g.relations :=
  List.foldlRecOn (motive := fun t : Touched S => ∀ rel ∈ t.relations, rel ∈ g.relations) known _ ht
    fun _ ih _ _ => mem_relations_of_touch ih

end Graph

/-! ### Answers -/

section Answers

variable [Scalar S] {g : Graph S}

/-- **An answer that is drawn from a graph**: its nodes are those of entities of the graph, and its
edges those of relations of it. -/
structure Query.Answer.DrawnFrom (a : Answer S) (g : Graph S) : Prop where
  nodes : ∀ n ∈ a.nodes, ∃ e ∈ g.entities, n = AnswerNode.ofEntity e
  edges : ∀ e ∈ a.edges, ∃ r ∈ g.relations, e = AnswerEdge.ofRelation r

namespace Graph

omit [Scalar S] in
theorem exists_entity_of_answerNodes {ids : List String} {n : AnswerNode S}
    (h : n ∈ g.answerNodes ids) : ∃ e ∈ g.entities, n = AnswerNode.ofEntity e := by
  obtain ⟨e, he, rfl⟩ := List.mem_map.1 h
  obtain ⟨id, -, hid⟩ := List.mem_filterMap.1 he
  exact ⟨e, mem_of_entity? hid, rfl⟩

omit [Scalar S] in
theorem exists_relation_of_edges {relations : List (Relation S)}
    (hall : ∀ rel ∈ relations, rel ∈ g.relations) {e : AnswerEdge S}
    (h : e ∈ relations.map AnswerEdge.ofRelation) :
    ∃ r ∈ g.relations, e = AnswerEdge.ofRelation r := by
  obtain ⟨r, hr, rfl⟩ := List.mem_map.1 h
  exact ⟨r, hall r hr, rfl⟩

theorem drawnFrom_empty (g : Graph S) (kind : Kind) (now : Instant) :
    (Answer.empty kind now : Answer S).DrawnFrom g :=
  ⟨by simp [Answer.empty], by simp [Answer.empty]⟩

theorem drawnFrom_answerOfPaths (g : Graph S) (kind : Kind) (paths : List (List String))
    (confidence : S) (now : Instant) :
    (g.answerOfPaths kind paths confidence now).DrawnFrom g := by
  refine ⟨fun _ h => exists_entity_of_answerNodes h, fun _ h => ?_⟩
  refine exists_relation_of_edges (fun rel hrel => ?_) h
  obtain ⟨_, -, hstep⟩ := List.mem_flatMap.1 hrel
  exact mem_relations_of_between hstep

theorem drawnFrom_findNeighbors (g : Graph S) (seeds kinds : List String) (depth : Nat)
    (now : Instant) : (g.findNeighbors seeds kinds depth now).DrawnFrom g := by
  unfold findNeighbors
  dsimp only
  split
  · exact drawnFrom_empty g .neighbors now
  · exact ⟨fun _ h => exists_entity_of_answerNodes h,
      fun _ h => exists_relation_of_edges (fun _ => mem_relations_of_neighborhood) h⟩

theorem drawnFrom_subgraph (g : Graph S) (ids : List String) (hops : Nat) (coverage : S)
    (now : Instant) : (g.subgraph ids hops coverage now).DrawnFrom g := by
  unfold subgraph
  dsimp only
  split
  · exact drawnFrom_empty g .subgraph now
  · have h := drawnFrom_answerOfPaths g .subgraph (g.pathsAmong hops ids) 0.0 now
    exact ⟨h.nodes, h.edges⟩

theorem drawnFrom_touchingAnswer (g : Graph S) (ids kinds : List String) (coverage : S)
    (now : Instant) : (g.touchingAnswer ids kinds coverage now).DrawnFrom g := by
  unfold touchingAnswer
  dsimp only
  split
  · exact drawnFrom_empty g .general now
  · refine ⟨fun _ h => exists_entity_of_answerNodes h, fun _ h => ?_⟩
    exact exists_relation_of_edges (mem_relations_of_touched (by simp)) h

/-- **Every answer is drawn from the graph.** -/
theorem drawnFrom_answer (g : Graph S) (settings : QuerySettings) (q : Question) (now : Instant) :
    (g.answer settings q now).DrawnFrom g := by
  unfold answer
  split
  · split
    · exact drawnFrom_answerOfPaths ..
    · exact drawnFrom_empty g .path now
  · exact drawnFrom_findNeighbors ..
  · exact drawnFrom_subgraph ..
  · exact drawnFrom_touchingAnswer ..

/-! ### What an answer depends on -/

theorem agrees_findNeighbors (g : Graph S) (seeds kinds : List String) (depth : Nat)
    (now later : Instant) :
    (g.findNeighbors seeds kinds depth now).Agrees (g.findNeighbors seeds kinds depth later) := by
  unfold findNeighbors
  dsimp only
  split <;> exact ⟨rfl, rfl, rfl, rfl, rfl⟩

theorem agrees_subgraph (g : Graph S) (ids : List String) (hops : Nat) (coverage : S)
    (now later : Instant) :
    (g.subgraph ids hops coverage now).Agrees (g.subgraph ids hops coverage later) := by
  unfold subgraph
  dsimp only
  split <;> exact ⟨rfl, rfl, rfl, rfl, rfl⟩

theorem agrees_touchingAnswer (g : Graph S) (ids kinds : List String) (coverage : S)
    (now later : Instant) :
    (g.touchingAnswer ids kinds coverage now).Agrees
      (g.touchingAnswer ids kinds coverage later) := by
  unfold touchingAnswer
  dsimp only
  split <;> exact ⟨rfl, rfl, rfl, rfl, rfl⟩

/-- **When a question is asked makes no difference to the answer.** -/
theorem agrees_answer (g : Graph S) (settings : QuerySettings) (q : Question)
    (now later : Instant) :
    (g.answer settings q now).Agrees (g.answer settings q later) := by
  unfold answer
  split
  · split <;> exact ⟨rfl, rfl, rfl, rfl, rfl⟩
  · exact agrees_findNeighbors ..
  · exact agrees_subgraph ..
  · exact agrees_touchingAnswer ..

end Graph

end Answers

/-! ### What can be stored -/

section Storable

variable [Numeral S]

/-- **A relation that can be stored** with the answers that it is a part of. -/
structure Relation.Storable (r : Relation S) : Prop where
  source : r.source.properties.Storable
  target : r.target.properties.Storable
  properties : r.properties.Storable
  confidence : Numeral.Finite r.confidence

/-- **A graph that can be stored**, in answers that are drawn from it. -/
structure Graph.Storable (g : Graph S) : Prop where
  entities : ∀ e ∈ g.entities, e.properties.Storable
  properties : ∀ r ∈ g.records, r.properties.Storable
  confidences : ∀ r ∈ g.records, Numeral.Finite r.confidence

theorem Query.AnswerNode.storable_ofEntity {e : Entity S} (h : e.properties.Storable) :
    (ofEntity e).properties.Storable :=
  (h.insert (.text e.name)).insert (.text e.kind)

theorem Query.AnswerEdge.storable_ofRelation {r : Relation S} (h : r.properties.Storable)
    (hc : Numeral.Finite r.confidence) : (ofRelation r).properties.Storable :=
  (h.insert (.text r.kind)).insert (.float hc)

/-- An answer that is drawn from a graph that can be stored can be stored. -/
theorem Query.Answer.DrawnFrom.storable {a : Answer S} {g : Graph S} (h : a.DrawnFrom g)
    (hg : g.Storable) : a.Storable where
  nodes n hn := by
    obtain ⟨e, he, rfl⟩ := h.nodes n hn
    exact AnswerNode.storable_ofEntity (hg.entities e he)
  edges e he := by
    obtain ⟨rel, hrel, rfl⟩ := h.edges e he
    obtain ⟨r, hr, hres⟩ := Graph.mem_relations_iff.1 hrel
    obtain ⟨source, target, -, -, rfl⟩ := Graph.resolve?_eq_some_iff.1 hres
    exact AnswerEdge.storable_ofRelation (hg.properties r hr) (hg.confidences r hr)

namespace Graph

variable {g g' : Graph S} {rel : Relation S}

omit [Numeral S] in
theorem mem_entities_bind {e e' : Entity S} (h : e' ∈ (g.bind e).entities) :
    e' = e ∨ e' ∈ g.entities := by
  unfold bind at h
  split at h
  · exact Or.inr h
  · rcases List.mem_append.1 h with h | h
    · exact Or.inr h
    · exact Or.inl (List.mem_singleton.1 h)

/-- Adding what can be stored keeps a graph that can be stored. -/
theorem Storable.addRelation (hg : g.Storable) (hrel : rel.Storable)
    (h : g.addRelation rel = .ok g') : g'.Storable := by
  obtain ⟨-, rfl⟩ := addRelation_eq_ok_iff.1 h
  refine ⟨fun e he => ?_, fun r hr => ?_, fun r hr => ?_⟩
  · rcases mem_entities_bind he with rfl | he
    · exact hrel.target
    rcases mem_entities_bind he with rfl | he
    · exact hrel.source
    · exact hg.entities e he
  · rcases mem_of_mem_put hr with rfl | hr
    · exact hrel.properties
    · exact hg.properties r hr
  · rcases mem_of_mem_put hr with rfl | hr
    · exact hrel.confidence
    · exact hg.confidences r hr

end Graph

end Storable

end GraphReasoner
