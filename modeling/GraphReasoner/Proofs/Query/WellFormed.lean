import GraphReasoner.Proofs.Exact
import GraphReasoner.Proofs.Graph.Path
import GraphReasoner.Proofs.Query.Search
import Mathlib.Data.Finset.Prod

/-!
# Answers are subgraphs

The four searches collect nodes and edges in four ways, and each takes its own care that nothing
repeats. What they collect has one shape: some identifiers, and relations of different triples whose
ends are among them (`GraphReasoner.Graph.Spans`). An answer that is made of these is a subgraph:
its edges end in its nodes, and no edge repeats (`GraphReasoner.Query.Answer.WellFormed`).

The confidence of an answer is a share that is cut off at one, or the mean of two shares. That the
density of a subgraph is a share needs a count: the pairs that are joined are ordered pairs of
different nodes (`GraphReasoner.Graph.length_le_of_pairs`), because no step of a simple path stays
where it is. So clamping a mean of two shares does nothing.

* `GraphReasoner.Graph.answersWell_grow` – every search of every graph answers with a subgraph.
-/

namespace GraphReasoner

open GraphReasoner.Query
open GraphReasoner.Time (Instant)

variable {S : Type}

/-! ### What is collected -/

namespace Graph

variable {g : Graph S} {ids : List String} {relations : List (Relation S)}

/-- **Identifiers span relations** of the graph when both ends of each are among them, and no triple
repeats. -/
structure Spans (g : Graph S) (ids : List String) (relations : List (Relation S)) : Prop where
  mem : ∀ r ∈ relations, r ∈ g.relations
  ends_mem : ∀ r ∈ relations, r.source.id ∈ ids ∧ r.target.id ∈ ids
  nodup : (relations.map Relation.triple).Nodup

theorem spans_nil (g : Graph S) (ids : List String) : g.Spans ids [] :=
  ⟨nofun, nofun, List.nodup_nil⟩

/-- **One more relation** is spanned when its ends are, and its triple is new. -/
theorem Spans.add (h : g.Spans ids relations) {ids' : List String} (hids : ∀ id ∈ ids, id ∈ ids')
    {r : Relation S} (hr : r ∈ g.relations) (hends : r.source.id ∈ ids' ∧ r.target.id ∈ ids')
    (hnew : r.triple ∉ relations.map Relation.triple) : g.Spans ids' (relations ++ [r]) where
  mem := List.forall_mem_append.2 ⟨h.mem, List.forall_mem_singleton.2 hr⟩
  ends_mem := by
    refine List.forall_mem_append.2 ⟨?_, List.forall_mem_singleton.2 hends⟩
    intro old hold
    obtain ⟨hsource, htarget⟩ := h.ends_mem old hold
    exact ⟨hids _ hsource, hids _ htarget⟩
  nodup := by
    rw [List.map_append, List.map_singleton]
    refine List.nodup_append.2 ⟨h.nodup, List.nodup_singleton _, ?_⟩
    rintro triple htriple last hlast rfl
    rw [List.mem_singleton.1 hlast] at htriple
    exact hnew htriple

/-- The nodes of an answer are the identifiers that are bound. -/
theorem mem_ids_answerNodes {id : String} :
    id ∈ (g.answerNodes ids).map AnswerNode.id ↔ id ∈ ids ∧ g.hasEntity id = true := by
  have hids : (g.answerNodes ids).map AnswerNode.id = (ids.filterMap g.entity?).map Entity.id := by
    rw [answerNodes, List.map_map]
    rfl
  rw [hids, List.mem_map, hasEntity_iff]
  constructor
  · rintro ⟨e, he, rfl⟩
    obtain ⟨id, hid, hentity⟩ := List.mem_filterMap.1 he
    rw [id_of_entity? hentity]
    exact ⟨hid, e, hentity⟩
  · rintro ⟨hid, e, he⟩
    exact ⟨e, List.mem_filterMap.2 ⟨id, hid, he⟩, id_of_entity? he⟩

/-- When all identifiers are bound, there is a node for each. -/
theorem length_answerNodes (h : ∀ id ∈ ids, g.hasEntity id = true) :
    (g.answerNodes ids).length = ids.length := by
  rw [answerNodes, List.length_map]
  refine List.filterMap_length_eq_length.2 fun id hid => ?_
  obtain ⟨e, he⟩ := hasEntity_iff.1 (h id hid)
  rw [he]
  rfl

theorem hasEntity_of_mem_relations {r : Relation S} (h : r ∈ g.relations) :
    g.hasEntity r.source.id = true ∧ g.hasEntity r.target.id = true := by
  obtain ⟨record, -, hres⟩ := mem_relations_iff.1 h
  obtain ⟨s, t, hs, ht, rfl⟩ := resolve?_eq_some_iff.1 hres
  rw [Record.between, id_of_entity? hs, id_of_entity? ht]
  exact ⟨hasEntity_iff.2 ⟨s, hs⟩, hasEntity_iff.2 ⟨t, ht⟩⟩

end Graph

/-! ### Subgraphs -/

/-- **An answer is a subgraph** with a confidence in the unit interval. -/
structure Query.Answer.WellFormed [Scalar S] [ExactScalar S] (a : Answer S) (g : Graph S) : Prop
    extends a.DrawnFrom g where
  /-- Every edge ends in nodes of the answer. -/
  ends_mem : ∀ e ∈ a.edges, e.source ∈ a.nodeIds ∧ e.target ∈ a.nodeIds
  /-- No two edges have source, target and type in common. -/
  edges_distinct : (a.edges.map fun e => (e.source, e.target, e.relationKind?)).Nodup
  /-- Every path visits nodes of the answer. -/
  visits : ∀ path ∈ a.paths, ∀ id ∈ path, id ∈ a.nodeIds
  /-- Every step of a path is along an edge of the answer. -/
  joined : ∀ path ∈ a.paths, ∀ step ∈ Path.pairs path,
    ∃ e ∈ a.edges, e.source = step.1 ∧ e.target = step.2
  inUnit : Scalar.InUnit a.confidence
  /-- Nothing is found with confidence zero. -/
  confidence_of_isEmpty : a.isEmpty = true → ExactScalar.value a.confidence = 0

/-- An edge tells the type of its relation. -/
theorem Query.AnswerEdge.relationKind?_ofRelation (r : Relation S) :
    (ofRelation r).relationKind? = some r.kind := by
  simp [relationKind?, ofRelation, Properties.text?, Properties.get?, Properties.insert,
    Table.get?_insert, Value.asText]

/-- The mentions that denote an entity are a share of all. -/
theorem Query.Question.inUnit_coverage [Scalar S] [ExactScalar S] (q : Question) :
    Scalar.InUnit (q.coverage : S) := by
  unfold coverage
  split
  · exact ExactScalar.inUnit_zero
  · exact ExactScalar.inUnit_ratio (List.length_filter_le _ _)

namespace Graph

variable [Scalar S] [ExactScalar S] {g : Graph S} {ids : List String}
  {relations : List (Relation S)} {done : List (Insertion S)}

/-- **An answer that is made of identifiers and the relations they span is a subgraph**, if its
paths are in it and its confidence is right. -/
theorem Spans.wellFormed {a : Answer S} (h : g.Spans ids relations)
    (hnodes : a.nodes = g.answerNodes ids) (hedges : a.edges = relations.map AnswerEdge.ofRelation)
    (hvisits : ∀ path ∈ a.paths, ∀ id ∈ path, id ∈ ids ∧ g.hasEntity id = true)
    (hjoined : ∀ path ∈ a.paths, ∀ step ∈ Path.pairs path,
      ∃ r ∈ relations, r.source.id = step.1 ∧ r.target.id = step.2)
    (hunit : Scalar.InUnit a.confidence)
    (hempty : a.isEmpty = true → ExactScalar.value a.confidence = 0) : a.WellFormed g := by
  have hids : ∀ {id}, id ∈ ids → g.hasEntity id = true → id ∈ a.nodeIds := by
    intro id hid hentity
    rw [Answer.nodeIds, hnodes]
    exact mem_ids_answerNodes.2 ⟨hid, hentity⟩
  refine
    { nodes := fun n hn => exists_entity_of_answerNodes (hnodes ▸ hn)
      edges := fun e he => exists_relation_of_edges h.mem (hedges ▸ he)
      ends_mem := fun e he => ?_
      edges_distinct := ?_
      visits := fun path hpath id hid =>
        hids (hvisits path hpath id hid).1 (hvisits path hpath id hid).2
      joined := fun path hpath step hstep => ?_
      inUnit := hunit
      confidence_of_isEmpty := hempty }
  · rw [hedges] at he
    obtain ⟨r, hr, rfl⟩ := List.mem_map.1 he
    obtain ⟨hsource, htarget⟩ := h.ends_mem r hr
    obtain ⟨hs, ht⟩ := hasEntity_of_mem_relations (h.mem r hr)
    exact ⟨hids hsource hs, hids htarget ht⟩
  · -- the type that an edge tells is the type of its relation
    have htriples : (a.edges.map fun e => (e.source, e.target, e.relationKind?)) =
        (relations.map Relation.triple).map fun t => (t.1, t.2.1, some t.2.2) := by
      rw [hedges, List.map_map, List.map_map]
      refine List.map_congr_left fun r _ => ?_
      rw [Function.comp_apply, AnswerEdge.relationKind?_ofRelation]
      rfl
    rw [htriples]
    refine h.nodup.map ?_
    rintro ⟨source, target, kind⟩ ⟨source', target', kind'⟩ heq
    simpa using heq
  · obtain ⟨r, hr, hsource, htarget⟩ := hjoined path hpath step hstep
    refine ⟨AnswerEdge.ofRelation r, ?_, hsource, htarget⟩
    rw [hedges]
    exact List.mem_map_of_mem hr

theorem wellFormed_empty (g : Graph S) (kind : Kind) (now : Instant) :
    (Answer.empty kind now : Answer S).WellFormed g := by
  refine (g.spans_nil []).wellFormed rfl rfl nofun nofun ExactScalar.inUnit_zero fun _ => ?_
  rw [Answer.empty, ExactScalar.value_ofScientific]
  norm_num

/-! ### Answers that are made of paths -/

/-- The steps of some paths, each once. -/
def steps (paths : List (List String)) : List (String × String) :=
  (paths.flatMap Path.pairs).eraseDups

omit [Scalar S] [ExactScalar S] in
/-- There are no more ordered pairs of different nodes than that. -/
theorem length_le_of_pairs {pairs : List (String × String)} (hnodup : pairs.Nodup)
    (h : ∀ p ∈ pairs, p.1 ∈ ids ∧ p.2 ∈ ids ∧ p.1 ≠ p.2) :
    pairs.length ≤ ids.length * (ids.length - 1) := by
  have hsub : pairs.toFinset ⊆ ids.toFinset.offDiag := by
    intro p hp
    obtain ⟨hsource, htarget, hne⟩ := h p (List.mem_toFinset.1 hp)
    exact Finset.mem_offDiag.2 ⟨List.mem_toFinset.2 hsource, List.mem_toFinset.2 htarget, hne⟩
  have hcard : ids.toFinset.card ≤ ids.length := List.toFinset_card_le ids
  calc pairs.length = pairs.toFinset.card := (List.toFinset_card_of_nodup hnodup).symm
    _ ≤ ids.toFinset.offDiag.card := Finset.card_le_card hsub
    _ = ids.toFinset.card * (ids.toFinset.card - 1) := by
        rw [Finset.offDiag_card, Nat.mul_sub_one]
    _ ≤ ids.length * (ids.length - 1) := Nat.mul_le_mul hcard (Nat.sub_le_sub_right hcard 1)

section Paths

variable {paths : List (List String)}

omit [Scalar S] [ExactScalar S] in
theorem mem_between_iff {source target : String} {r : Relation S} :
    r ∈ g.between source target ↔
      r ∈ g.relations ∧ r.source.id = source ∧ r.target.id = target := by
  rw [between_eq, List.mem_reverse, List.mem_filter, Bool.and_eq_true, beq_iff_eq, beq_iff_eq]

omit [ExactScalar S] in
/-- **The nodes of some paths span the relations along their steps.** -/
theorem Tells.spans_steps (h : g.Tells done) (paths : List (List String)) :
    g.Spans paths.flatten.eraseDups
      ((steps paths).flatMap fun step => g.between step.1 step.2) := by
  have hmem : ∀ r, r ∈ ((steps paths).flatMap fun step => g.between step.1 step.2) →
      r ∈ g.relations ∧ ∃ path ∈ paths, (r.source.id, r.target.id) ∈ Path.pairs path := by
    intro r hr
    obtain ⟨step, hstep, hr⟩ := List.mem_flatMap.1 hr
    obtain ⟨path, hpath, hpair⟩ := List.mem_flatMap.1 (List.mem_eraseDups.1 hstep)
    obtain ⟨hrelation, hsource, htarget⟩ := mem_between_iff.1 hr
    refine ⟨hrelation, path, hpath, ?_⟩
    rw [hsource, htarget]
    exact hpair
  refine ⟨fun r hr => (hmem r hr).1, fun r hr => ?_, ?_⟩
  · obtain ⟨-, path, hpath, hpair⟩ := hmem r hr
    obtain ⟨hsource, htarget⟩ := Path.mem_of_mem_pairs hpair
    exact ⟨List.mem_eraseDups.2 (List.mem_flatten.2 ⟨path, hpath, hsource⟩),
      List.mem_eraseDups.2 (List.mem_flatten.2 ⟨path, hpath, htarget⟩)⟩
  · rw [List.map_flatMap, List.nodup_flatMap]
    constructor
    · intro step _
      rw [between_eq, List.map_reverse, List.nodup_reverse]
      exact h.history.relation_triples_nodup.sublist (List.filter_sublist.map _)
    · -- relations of different steps differ in their ends
      refine (nodup_eraseDups _).imp fun {step step'} hne triple htriple htriple' => hne ?_
      obtain ⟨r, hr, rfl⟩ := List.mem_map.1 htriple
      obtain ⟨r', hr', heq⟩ := List.mem_map.1 htriple'
      obtain ⟨-, hsource, htarget⟩ := mem_between_iff.1 hr
      obtain ⟨-, hsource', htarget'⟩ := mem_between_iff.1 hr'
      obtain ⟨hs, ht, -⟩ : r'.source.id = r.source.id ∧ r'.target.id = r.target.id ∧ _ := by
        simpa [Relation.triple] using heq
      exact Prod.ext (hsource.symm.trans (hs.symm.trans hsource'))
        (htarget.symm.trans (ht.symm.trans htarget'))

/-- **An answer that is made of paths is a subgraph.** -/
theorem Tells.wellFormed_answerOfPaths (h : g.Tells done) (hpaths : ∀ path ∈ paths, g.Traces path)
    {confidence : S} (hunit : Scalar.InUnit confidence)
    (hempty : paths = [] → ExactScalar.value confidence = 0) (kind : Kind) (now : Instant) :
    (g.answerOfPaths kind paths confidence now).WellFormed g := by
  refine (h.spans_steps paths).wellFormed rfl rfl (fun path hpath id hid => ?_)
    (fun path hpath step hstep => ?_) hunit fun hnothing => hempty ?_
  · exact ⟨List.mem_eraseDups.2 (List.mem_flatten.2 ⟨path, hpath, hid⟩),
      (hpaths path hpath).hasEntity id hid⟩
  · have htarget := (hpaths path hpath).step step hstep
    have hsome : 0 < (g.between step.1 step.2).length := by
      rw [← h.resolves.count_targets]
      exact List.count_pos_iff.2 htarget
    obtain ⟨r, hr⟩ := List.exists_mem_of_length_pos hsome
    refine ⟨r, List.mem_flatMap.2 ⟨step, ?_, hr⟩, (mem_between_iff.1 hr).2⟩
    exact List.mem_eraseDups.2 (List.mem_flatMap.2 ⟨path, hpath, hstep⟩)
  · have hall : (_ && _ && paths.isEmpty) = true := hnothing
    exact List.isEmpty_iff.1 (Bool.and_eq_true_iff.1 hall).2

/-- **Paths between two groups of entities** make up a subgraph. -/
theorem Tells.wellFormed_findPaths (h : g.Tells done) (sources targets : List String) (hops : Nat)
    (now : Instant) : (g.findPaths sources targets hops now).WellFormed g := by
  refine h.wellFormed_answerOfPaths (fun path hpath => ?_) ?_ ?_ .path now
  · obtain ⟨source, -, hpath⟩ := List.mem_flatMap.1 hpath
    obtain ⟨target, -, hpath⟩ := List.mem_flatMap.1 hpath
    split at hpath
    · cases hpath
    · exact h.resolves.traces hpath
  · refine ExactScalar.inUnit_lesser_one ?_
    rw [ExactScalar.value_div, ExactScalar.value_natCast, ExactScalar.value_ofScientific]
    positivity
  · -- no path at all is not cut off either
    intro hnil
    rw [hnil, Scalar.lesser, if_neg]
    · simp
    · rw [ExactScalar.lt_iff]
      norm_num

omit [Scalar S] [ExactScalar S] in
theorem mem_pathsAmong {hops : Nat} {path : List String} (h : path ∈ g.pathsAmong hops ids) :
    ∃ source target, path ∈ g.simplePaths source target hops := by
  induction ids with
  | nil => cases h
  | cons a rest ih =>
    rcases List.mem_append.1 h with h | h
    · obtain ⟨b, -, h⟩ := List.mem_flatMap.1 h
      rcases List.mem_append.1 h with h | h
      · exact ⟨a, b, h⟩
      · exact ⟨b, a, h⟩
    · exact ih h

/-- **The density of what some paths span is a share**: every pair that is joined is an ordered pair
of different nodes. -/
theorem Tells.inUnit_edgeDensity (h : g.Tells done) (hpaths : ∀ path ∈ paths, g.Traces path)
    (kind : Kind) (confidence : S) (now : Instant) :
    let a := g.answerOfPaths kind paths confidence now
    Scalar.InUnit (edgeDensity a.nodes.length a.edges : S) := by
  intro a
  have hspans := h.spans_steps paths
  have hnodes : a.nodes.length = paths.flatten.eraseDups.length := by
    refine length_answerNodes fun id hid => ?_
    obtain ⟨path, hpath, hid⟩ := List.mem_flatten.1 (List.mem_eraseDups.1 hid)
    exact (hpaths path hpath).hasEntity id hid
  unfold edgeDensity
  split
  · exact ExactScalar.inUnit_zero
  · refine ExactScalar.inUnit_ratio ?_
    rw [hnodes]
    refine length_le_of_pairs (nodup_eraseDups _) fun p hp => ?_
    obtain ⟨e, he, rfl⟩ := List.mem_map.1 (List.mem_eraseDups.1 hp)
    obtain ⟨r, hr, rfl⟩ := List.mem_map.1 he
    obtain ⟨hsource, htarget⟩ := hspans.ends_mem r hr
    refine ⟨hsource, htarget, ?_⟩
    -- the ends are those of a step, which leads to another node
    obtain ⟨step, hstep, hr⟩ := List.mem_flatMap.1 hr
    obtain ⟨path, hpath, hpair⟩ := List.mem_flatMap.1 (List.mem_eraseDups.1 hstep)
    obtain ⟨-, hs, ht⟩ := mem_between_iff.1 hr
    intro heq
    exact (hpaths path hpath).ne step hpair (hs.symm.trans (heq.trans ht))

/-- **A confidence is clamped in vain** when what is clamped lies in the unit interval. -/
structure ClampedInVain (confidence raw : S) : Prop where
  clamped : confidence = Scalar.clampUnit raw
  inUnit : Scalar.InUnit raw

theorem ClampedInVain.eq {confidence raw : S} (h : ClampedInVain confidence raw) :
    confidence = raw :=
  h.clamped.trans (ExactScalar.clampUnit_of_inUnit h.inUnit)

omit [ExactScalar S] in
theorem subgraph_eq_empty {hops : Nat} (hnone : g.pathsAmong hops ids = []) (coverage : S)
    (now : Instant) : g.subgraph ids hops coverage now = Answer.empty .subgraph now := by
  rw [subgraph, hnone]
  rfl

omit [ExactScalar S] in
/-- The confidence is put in when the nodes and edges are known; it changes neither. -/
theorem subgraph_eq_answerOfPaths {hops : Nat} (hsome : g.pathsAmong hops ids ≠ []) (coverage : S)
    (now : Instant) :
    let a := g.subgraph ids hops coverage now
    a = g.answerOfPaths .subgraph (g.pathsAmong hops ids)
      (Scalar.clampUnit ((coverage + edgeDensity a.nodes.length a.edges) / 2.0)) now := by
  intro a
  have ha : a = g.subgraph ids hops coverage now := rfl
  rw [subgraph, if_neg (mt List.isEmpty_iff.1 hsome)] at ha
  rw [ha]
  rfl

/-- **The paths between some entities** make up a subgraph, and its confidence is clamped in
vain. -/
theorem Tells.wellFormed_subgraph (h : g.Tells done) (ids : List String) (hops : Nat)
    {coverage : S} (hcoverage : Scalar.InUnit coverage) (now : Instant) :
    let a := g.subgraph ids hops coverage now
    a.WellFormed g ∧ (a.isEmpty = false →
      ClampedInVain a.confidence ((coverage + edgeDensity a.nodes.length a.edges) / 2.0)) := by
  intro a
  by_cases hnone : g.pathsAmong hops ids = []
  · have ha : a = Answer.empty .subgraph now := subgraph_eq_empty hnone coverage now
    rw [ha]
    exact ⟨wellFormed_empty g .subgraph now, nofun⟩
  · have hpaths : ∀ path ∈ g.pathsAmong hops ids, g.Traces path := by
      intro path hpath
      obtain ⟨source, target, hpath⟩ := mem_pathsAmong hpath
      exact h.resolves.traces hpath
    have ha : a = g.answerOfPaths .subgraph (g.pathsAmong hops ids)
        (Scalar.clampUnit ((coverage + edgeDensity a.nodes.length a.edges) / 2.0)) now :=
      subgraph_eq_answerOfPaths hnone coverage now
    have hdensity : Scalar.InUnit (edgeDensity a.nodes.length a.edges : S) := by
      rw [ha]
      exact h.inUnit_edgeDensity hpaths .subgraph _ now
    have hraw := ExactScalar.inUnit_mean hcoverage hdensity
    have hconfidence : ClampedInVain a.confidence
        ((coverage + edgeDensity a.nodes.length a.edges) / 2.0) :=
      ⟨congrArg Answer.confidence ha, hraw⟩
    refine ⟨?_, fun _ => hconfidence⟩
    rw [ha]
    refine h.wellFormed_answerOfPaths hpaths ?_ (fun hnil => absurd hnil hnone) .subgraph now
    rw [ExactScalar.clampUnit_of_inUnit hraw]
    exact hraw

end Paths

/-! ### Answers that are made of a neighborhood -/

omit [Scalar S] [ExactScalar S] in
/-- When a node is found, something is. -/
theorem isEmpty_of_mem_ids {a : Answer S} {id : String} (hnodes : a.nodes = g.answerNodes ids)
    (hid : id ∈ ids) (hentity : g.hasEntity id = true) : a.isEmpty = false := by
  have hin : id ∈ (g.answerNodes ids).map AnswerNode.id := mem_ids_answerNodes.2 ⟨hid, hentity⟩
  obtain ⟨n, hn, -⟩ := List.mem_map.1 hin
  have hsome : (g.answerNodes ids).isEmpty = false := List.isEmpty_eq_false_iff_exists_mem.2 ⟨n, hn⟩
  rw [Answer.isEmpty, hnodes, hsome]
  rfl

omit [Scalar S] [ExactScalar S] in
/-- **Known nodes and those discovered from them span the relations that led to them.** -/
theorem Resolves.spans_neighborhood (h : g.Resolves) {seeds : List String}
    (hseeds : ∀ id ∈ seeds, g.hasEntity id = true) (kinds : List String) (depth : Nat) :
    g.Spans (seeds ++ (g.neighborhood seeds depth kinds).discovered)
      (g.neighborhood seeds depth kinds).relations := by
  have hknown : seeds.filter g.hasEntity = seeds := List.filter_eq_self.2 hseeds
  have hdiscovery := discovery_levels g kinds seeds depth
  rw [neighborhood, hknown]
  refine ⟨fun r hr => ?_, fun r hr => ?_, ?_⟩
  · obtain ⟨f, hf, hres⟩ := List.mem_filterMap.1 hr
    exact mem_relations_iff.2 ⟨f.2, hdiscovery.mem_records f hf, hres⟩
  · obtain ⟨f, hf, hres⟩ := List.mem_filterMap.1 hr
    have hends := hdiscovery.ends_mem f hf
    obtain ⟨s, t, hs, ht, rfl⟩ := resolve?_eq_some_iff.1 hres
    rw [Record.between, id_of_entity? hs, id_of_entity? ht]
    exact hends
  · have hrelations : ((g.levels kinds depth seeds seeds).flatten.filterMap fun f =>
        g.resolve? f.2) =
          ((g.levels kinds depth seeds seeds).flatten.map Prod.snd).filterMap g.resolve? := by
      rw [List.filterMap_map]
      rfl
    rw [hrelations, h.map_filterMap (fun _ _ hres => triple_of_resolve? hres), List.map_map]
    · exact hdiscovery.triples_nodup
    · intro r hr
      obtain ⟨f, hf, rfl⟩ := List.mem_map.1 hr
      exact hdiscovery.mem_records f hf

/-- **A breadth-first search** makes up a subgraph. -/
theorem Tells.wellFormed_findNeighbors (h : g.Tells done) (seeds kinds : List String)
    (depth : Nat) (now : Instant) : (g.findNeighbors seeds kinds depth now).WellFormed g := by
  unfold findNeighbors
  dsimp only
  split
  · exact wellFormed_empty g .neighbors now
  rename_i hknown
  have hentities : ∀ id ∈ seeds.filter g.hasEntity, g.hasEntity id = true := fun id hid =>
    (List.mem_filter.1 hid).2
  obtain ⟨id, hid⟩ := List.exists_mem_of_ne_nil _ fun hnil => hknown (List.isEmpty_iff.2 hnil)
  refine (h.resolves.spans_neighborhood hentities kinds (max depth 1)).wellFormed rfl rfl nofun
    nofun ?_ fun hnothing => ?_
  · refine ExactScalar.inUnit_lesser_one ?_
    rw [ExactScalar.value_div, ExactScalar.value_mul, ExactScalar.value_natCast,
      ExactScalar.value_natCast, ExactScalar.value_ofScientific]
    positivity
  · cases (isEmpty_of_mem_ids rfl (List.mem_append_left _ hid) (hentities id hid)).symm.trans
      hnothing

/-! ### Answers that are made of what touches some entities -/

omit [Scalar S] [ExactScalar S] in
/-- The relations around an entity have it for an end. -/
theorem ends_of_touching {id : String} {r : Relation S} (h : r ∈ g.outgoing id ++ g.incoming id) :
    r ∈ g.relations ∧ (r.source.id = id ∨ r.target.id = id) := by
  rcases List.mem_append.1 h with h | h
  · rw [outgoing_eq, List.mem_reverse, List.mem_filter, beq_iff_eq] at h
    exact ⟨h.1, Or.inl h.2⟩
  · rw [incoming_eq, List.mem_reverse, List.mem_filter, beq_iff_eq] at h
    exact ⟨h.1, Or.inr h.2⟩

omit [Scalar S] [ExactScalar S] in
/-- A relation that has an entity for an end ends in it and in its other end. -/
theorem ends_of_other {id other : String} {r : Relation S}
    (h : r.source.id = id ∨ r.target.id = id)
    (hother : (if r.source.id == id then r.target.id else r.source.id) = other) :
    (r.source.id = id ∧ r.target.id = other) ∨ (r.source.id = other ∧ r.target.id = id) := by
  by_cases hs : r.source.id = id
  · rw [if_pos (beq_iff_eq.2 hs)] at hother
    exact Or.inl ⟨hs, hother⟩
  · rw [if_neg (by simpa using hs)] at hother
    exact Or.inr ⟨hother, h.resolve_left hs⟩

/-- A node is added once. -/
theorem mem_addNode_iff {nodes : List String} {node other : String} :
    node ∈ (if nodes.contains other then nodes else nodes ++ [other]) ↔
      node ∈ nodes ∨ node = other := by
  split
  · rename_i hcontains
    constructor
    · exact Or.inl
    · rintro (hnode | rfl)
      · exact hnode
      · exact List.contains_iff_mem.1 hcontains
  · rw [List.mem_append, List.mem_singleton]

omit [Scalar S] [ExactScalar S] in
/-- **From one node that was met**, the relations that touch it are met with their other ends. -/
theorem Touched.spans_touch {t : Touched S} (ht : g.Spans t.nodes t.relations) {id : String}
    (hid : id ∈ t.nodes) (kinds : List String) :
    g.Spans (g.touch kinds t id).nodes (g.touch kinds t id).relations ∧
      ∀ other ∈ t.nodes, other ∈ (g.touch kinds t id).nodes := by
  unfold touch
  refine List.foldlRecOn (motive := fun t' : Touched S => g.Spans t'.nodes t'.relations ∧
    ∀ other ∈ t.nodes, other ∈ t'.nodes) (g.outgoing id ++ g.incoming id) _ ⟨ht, fun _ h => h⟩ ?_
  rintro t' ⟨hspans, hkeep⟩ r hr
  obtain ⟨hrelation, hend⟩ := ends_of_touching hr
  dsimp only
  split
  · exact ⟨hspans, hkeep⟩
  split
  · exact ⟨hspans, hkeep⟩
  rename_i hmet
  generalize hother : (if r.source.id == id then r.target.id else r.source.id) = other
  have hnew : r.triple ∉ t'.relations.map Relation.triple := by
    intro htriple
    obtain ⟨old, hold, heq⟩ := List.mem_map.1 htriple
    exact hmet (List.any_eq_true.2 ⟨old, hold, beq_iff_eq.2 heq⟩)
  -- the other end is a node now, whether it was one before or not
  have hends : r.source.id ∈ (if t'.nodes.contains other then t'.nodes else t'.nodes ++ [other]) ∧
      r.target.id ∈ (if t'.nodes.contains other then t'.nodes else t'.nodes ++ [other]) := by
    rw [mem_addNode_iff, mem_addNode_iff]
    rcases ends_of_other hend hother with ⟨hsource, htarget⟩ | ⟨hsource, htarget⟩
    · exact ⟨Or.inl (hsource ▸ hkeep id hid), Or.inr htarget⟩
    · exact ⟨Or.inr hsource, Or.inl (htarget ▸ hkeep id hid)⟩
  refine ⟨hspans.add (fun node hnode => mem_addNode_iff.2 (Or.inl hnode)) hrelation hends hnew, ?_⟩
  intro node hnode
  exact mem_addNode_iff.2 (Or.inl (hkeep node hnode))

omit [Scalar S] [ExactScalar S] in
/-- **From some nodes**, the relations that touch them are met with all their ends. -/
theorem spans_touched (g : Graph S) (known kinds : List String) :
    let t := known.foldl (g.touch kinds) ⟨known, []⟩
    g.Spans t.nodes t.relations ∧ ∀ id ∈ known, id ∈ t.nodes := by
  refine List.foldlRecOn (motive := fun t : Touched S => g.Spans t.nodes t.relations ∧
    ∀ id ∈ known, id ∈ t.nodes) known _ ⟨g.spans_nil known, fun _ h => h⟩ ?_
  rintro t ⟨hspans, hkeep⟩ id hid
  obtain ⟨hspans', hkeep'⟩ := Touched.spans_touch hspans (hkeep id hid) kinds
  exact ⟨hspans', fun node hnode => hkeep' node (hkeep node hnode)⟩

/-- The share of some types that the edges of an answer have; zero for none. -/
def kindShare (kinds : List String) (edges : List (AnswerEdge S)) : S :=
  let wanted := kinds.eraseDups
  let found := wanted.filter fun k => edges.any fun e => e.relationKind? == some k
  if wanted.isEmpty then 0.0 else (found.length : S) / (wanted.length : S)

theorem inUnit_kindShare (kinds : List String) (edges : List (AnswerEdge S)) :
    Scalar.InUnit (kindShare kinds edges) := by
  unfold kindShare
  dsimp only
  split
  · exact ExactScalar.inUnit_zero
  · exact ExactScalar.inUnit_ratio (List.length_filter_le _ _)

omit [ExactScalar S] in
theorem touchingAnswer_eq_empty (hnone : ids.filter g.hasEntity = []) (kinds : List String)
    (coverage : S) (now : Instant) :
    g.touchingAnswer ids kinds coverage now = Answer.empty .general now := by
  rw [touchingAnswer, hnone]
  rfl

omit [ExactScalar S] in
/-- The types that are found among the relations are those that their edges tell. -/
theorem touchingAnswer_eq (hsome : ids.filter g.hasEntity ≠ []) (kinds : List String) (coverage : S)
    (now : Instant) :
    let t := (ids.filter g.hasEntity).foldl (g.touch kinds) ⟨ids.filter g.hasEntity, []⟩
    let edges := t.relations.map AnswerEdge.ofRelation
    g.touchingAnswer ids kinds coverage now = { Answer.empty .general now with
      nodes := g.answerNodes t.nodes
      edges := edges
      confidence := Scalar.clampUnit ((coverage + kindShare kinds edges) / 2.0) } := by
  intro t edges
  have hkinds : ∀ k, (t.relations.any fun r => r.kind == k) =
      edges.any fun e => e.relationKind? == some k := by
    intro k
    have hkind : ((fun e : AnswerEdge S => e.relationKind? == some k) ∘ AnswerEdge.ofRelation) =
        fun r : Relation S => r.kind == k := by
      funext r
      rw [Function.comp_apply, AnswerEdge.relationKind?_ofRelation]
      rfl
    rw [List.any_map, hkind]
  have ht : t = (ids.filter g.hasEntity).foldl (g.touch kinds) ⟨ids.filter g.hasEntity, []⟩ := rfl
  rw [touchingAnswer, if_neg (mt List.isEmpty_iff.1 hsome), ← ht, kindShare]
  simp only [hkinds]
  rfl

/-- **What touches some entities** makes up a subgraph, and its confidence is clamped in vain. -/
theorem wellFormed_touchingAnswer (g : Graph S) (ids kinds : List String) {coverage : S}
    (hcoverage : Scalar.InUnit coverage) (now : Instant) :
    let a := g.touchingAnswer ids kinds coverage now
    a.WellFormed g ∧ (a.isEmpty = false →
      ClampedInVain a.confidence ((coverage + kindShare kinds a.edges) / 2.0)) := by
  intro a
  by_cases hnone : ids.filter g.hasEntity = []
  · have ha : a = Answer.empty .general now := touchingAnswer_eq_empty hnone kinds coverage now
    rw [ha]
    exact ⟨wellFormed_empty g .general now, nofun⟩
  · have ha := touchingAnswer_eq hnone kinds coverage now
    obtain ⟨hspans, hkeep⟩ := spans_touched g (ids.filter g.hasEntity) kinds
    generalize (ids.filter g.hasEntity).foldl (g.touch kinds) ⟨ids.filter g.hasEntity, []⟩ = t
      at ha hspans hkeep
    have hraw := ExactScalar.inUnit_mean hcoverage
      (inUnit_kindShare kinds (t.relations.map AnswerEdge.ofRelation))
    obtain ⟨id, hid⟩ := List.exists_mem_of_ne_nil _ hnone
    have hfound : a.isEmpty = false := by
      have hentity : g.hasEntity id = true := (List.mem_filter.1 hid).2
      exact isEmpty_of_mem_ids (congrArg Answer.nodes ha) (hkeep id hid) hentity
    refine ⟨?_, fun _ => ?_⟩
    · refine hspans.wellFormed (congrArg Answer.nodes ha) (congrArg Answer.edges ha) ?_ ?_ ?_ ?_
      · rw [congrArg Answer.paths ha]
        exact nofun
      · rw [congrArg Answer.paths ha]
        exact nofun
      · rw [congrArg Answer.confidence ha, ExactScalar.clampUnit_of_inUnit hraw]
        exact hraw
      · intro hnothing
        rw [hfound] at hnothing
        cases hnothing
    · rw [congrArg Answer.confidence ha, congrArg Answer.edges ha]
      exact ⟨rfl, hraw⟩

/-! ### Every search -/

theorem inUnit_knownShare (g : Graph S) (ids : List String) :
    Scalar.InUnit (g.knownShare ids : S) := by
  unfold knownShare
  split
  · exact ExactScalar.inUnit_zero
  · exact ExactScalar.inUnit_ratio (List.length_filter_le _ _)

/-- **Every question is answered with a subgraph.** -/
theorem Tells.wellFormed_answer (h : g.Tells done) (settings : QuerySettings) (q : Question)
    (now : Instant) : (g.answer settings q now).WellFormed g := by
  unfold answer
  split
  · split
    · exact h.wellFormed_findPaths ..
    · exact wellFormed_empty g .path now
  · exact h.wellFormed_findNeighbors ..
  · exact (h.wellFormed_subgraph _ _ q.inUnit_coverage now).1
  · exact (wellFormed_touchingAnswer g _ _ q.inUnit_coverage now).1

/-- The shares that a search takes for the coverage: of the identifiers that are known, and of the
mentions of a question that denote an entity. -/
def IsCoverage (g : Graph S) (ids : List String) (coverage : S) : Prop :=
  coverage = g.knownShare ids ∨ ∃ q : Question, coverage = q.coverage

theorem IsCoverage.inUnit {coverage : S} (h : g.IsCoverage ids coverage) :
    Scalar.InUnit coverage := by
  rcases h with rfl | ⟨q, rfl⟩
  · exact g.inUnit_knownShare ids
  · exact q.inUnit_coverage

/-- **A graph answers well** when every question, that of every text among them, and every direct
search is answered with a subgraph, and both searches that clamp a confidence do so in vain. -/
structure AnswersWell (g : Graph S) (now : Instant) : Prop where
  answer : ∀ settings q, (g.answer settings q now).WellFormed g
  findPaths : ∀ sources targets hops, (g.findPaths sources targets hops now).WellFormed g
  findNeighbors : ∀ seeds kinds depth, (g.findNeighbors seeds kinds depth now).WellFormed g
  subgraphOf : ∀ ids hops, (g.subgraphOf ids hops now).WellFormed g
  touchingSearch : ∀ ids kinds, (g.touchingSearch ids kinds now).WellFormed g
  subgraph_clamped : ∀ ids hops coverage, g.IsCoverage ids coverage →
    let a := g.subgraph ids hops coverage now
    a.isEmpty = false →
      ClampedInVain a.confidence ((coverage + edgeDensity a.nodes.length a.edges) / 2.0)
  touching_clamped : ∀ ids kinds coverage, g.IsCoverage ids coverage →
    let a := g.touchingAnswer ids kinds coverage now
    a.isEmpty = false →
      ClampedInVain a.confidence ((coverage + kindShare kinds a.edges) / 2.0)

/-- **Every graph answers well.** -/
theorem answersWell_grow (calls : List (Insertion S)) (now : Instant) :
    (grow empty calls).AnswersWell now := by
  have h : (grow empty calls).Tells (accepted empty calls) := tells_grow calls
  exact
    { answer := fun settings q => h.wellFormed_answer settings q now
      findPaths := fun sources targets hops => h.wellFormed_findPaths sources targets hops now
      findNeighbors := fun seeds kinds depth => h.wellFormed_findNeighbors seeds kinds depth now
      subgraphOf := fun ids hops =>
        (h.wellFormed_subgraph ids hops (inUnit_knownShare _ ids) now).1
      touchingSearch := fun ids kinds =>
        (wellFormed_touchingAnswer _ ids kinds (inUnit_knownShare _ ids) now).1
      subgraph_clamped := fun ids hops _ hcoverage =>
        (h.wellFormed_subgraph ids hops hcoverage.inUnit now).2
      touching_clamped := fun ids kinds _ hcoverage =>
        (wellFormed_touchingAnswer _ ids kinds hcoverage.inUnit now).2 }

/-- Two ways from one end to the other, and a relation that is on none. -/
def twoRoutes : List (Insertion Fraction) :=
  let entity (id : String) : Entity Fraction := ⟨id, id, "concept", .empty⟩
  let edge (source kind target : String) : Insertion Fraction :=
    .relation ⟨entity source, entity target, kind, 0.5, .empty, none⟩
  [edge "A" "related_to" "B", edge "A" "causes" "C", edge "C" "part_of" "B", edge "D" "is_a" "A"]

/-- Three of the six pairs are joined, and both ends are known. -/
theorem answersWell_grow_twoRoutes :
    let a := (grow empty twoRoutes).subgraphOf ["A", "B"] 2 ⟨0, 0⟩
    a.isEmpty = false ∧ a.paths = [["A", "B"], ["A", "C", "B"]] ∧ a.confidence = ⟨3 / 4⟩ := by
  intro a
  have hfound : a.isEmpty = false := by with_unfolding_all rfl
  have hclamped := (answersWell_grow twoRoutes ⟨0, 0⟩).subgraph_clamped ["A", "B"] 2 _ (.inl rfl)
    hfound
  refine ⟨hfound, by with_unfolding_all rfl, hclamped.eq.trans ?_⟩
  with_unfolding_all rfl

end Graph

end GraphReasoner
