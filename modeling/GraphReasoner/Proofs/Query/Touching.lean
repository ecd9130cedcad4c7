import GraphReasoner.Proofs.Query.Union

/-!
# Answers that are made of what touches some entities

The search around some entities looks at the relations around one entity after the other, the
outgoing ones before the incoming ones, and passes over those it has met. Which relations it meets,
and in which order, does not depend on the nodes it collects beside them: their triples are those of
all relations that it looks at, each once (`GraphReasoner.Graph.map_triple_touched`). A relation
that joins two of the entities, or one to itself, is looked at twice and met once.

The nodes can be read off the relations met. Of the two ends of a relation one is an entity that the
search started from, so at most one is a node not known before, whichever entity led to the
relation. So the nodes are the known entities and then the other ends, in the order of first
appearance (`GraphReasoner.Graph.nodes_touched`).

* `GraphReasoner.Graph.touchingSearch_grow` – the answer is the neighborhood of one step.
-/

namespace GraphReasoner

open GraphReasoner.Query
open GraphReasoner.Time (Instant)

variable {S : Type}

namespace Graph

variable {g : Graph S} {kinds known : List String} {id : String} {r : Relation S}

/-! ### The relations that are met -/

/-- The relations around an entity that have an allowed type, outgoing before incoming. -/
def around (g : Graph S) (kinds : List String) (id : String) : List (Relation S) :=
  (g.outgoing id ++ g.incoming id).filter fun r => kinds.isEmpty || kinds.contains r.kind

theorem mem_around_iff : r ∈ g.around kinds id ↔
    r ∈ g.relations ∧ Allows kinds r.kind ∧ (r.source.id = id ∨ r.target.id = id) := by
  have hkind : (kinds.isEmpty || kinds.contains r.kind) = true ↔ Allows kinds r.kind := by
    rw [Bool.or_eq_true, List.isEmpty_iff, List.contains_iff_mem, Allows]
  rw [around, List.mem_filter, hkind, List.mem_append, outgoing_eq, incoming_eq, List.mem_reverse,
    List.mem_reverse, List.mem_filter, List.mem_filter, beq_iff_eq, beq_iff_eq, ← and_or_left,
    and_assoc, and_comm (a := _ ∨ _)]

/-- Meets a relation at an entity, unless it has met the relation before. -/
def Touched.meet (id : String) (t : Touched S) (r : Relation S) : Touched S :=
  if t.relations.any fun other => other.triple == r.triple then t
  else
    let other := if r.source.id == id then r.target.id else r.source.id
    { nodes := if t.nodes.contains other then t.nodes else t.nodes ++ [other]
      relations := t.relations ++ [r] }

/-- **The relations around an entity are met** in their order. -/
theorem touch_eq (g : Graph S) (kinds : List String) (t : Touched S) (id : String) :
    g.touch kinds t id = (g.around kinds id).foldl (Touched.meet id) t := by
  rw [around, List.foldl_filter, touch]
  refine List.foldl_ext _ _ _ fun t r _ => ?_
  cases kinds.isEmpty <;> cases kinds.contains r.kind <;> rfl

namespace Touched

variable {t : Touched S} {seen : List (String × String × String)}

/-- A relation is met when its triple is new. -/
theorem map_triple_meet (h : t.relations.map Relation.triple = seen.eraseDups) (id : String)
    (r : Relation S) :
    (t.meet id r).relations.map Relation.triple = (seen ++ [r.triple]).eraseDups := by
  have hmet : (t.relations.any fun other => other.triple == r.triple) = true ↔ r.triple ∈ seen := by
    rw [← List.mem_eraseDups, ← h, List.any_eq_true, List.mem_map]
    simp only [beq_iff_eq]
  rw [meet, eraseDups_concat]
  by_cases hin : r.triple ∈ seen
  · rw [if_pos (hmet.2 hin), if_pos hin, h]
  · rw [if_neg (mt hmet.1 hin), if_neg hin, List.map_append, List.map_singleton, h]

theorem map_triple_foldl_meet (h : t.relations.map Relation.triple = seen.eraseDups) (id : String)
    (relations : List (Relation S)) :
    (relations.foldl (meet id) t).relations.map Relation.triple =
      (seen ++ relations.map Relation.triple).eraseDups := by
  induction relations generalizing t seen with
  | nil =>
    rw [List.map_nil, List.append_nil]
    exact h
  | cons r relations ih =>
    rw [List.foldl_cons, ih (map_triple_meet h id r), List.append_assoc]
    rfl

theorem map_triple_foldl_touch (h : t.relations.map Relation.triple = seen.eraseDups)
    (g : Graph S) (kinds known : List String) :
    (known.foldl (g.touch kinds) t).relations.map Relation.triple =
      (seen ++ (known.flatMap (g.around kinds)).map Relation.triple).eraseDups := by
  induction known generalizing t seen with
  | nil =>
    rw [List.flatMap_nil, List.map_nil, List.append_nil]
    exact h
  | cons id known ih =>
    have hfirst := map_triple_foldl_meet h id (g.around kinds id)
    rw [← touch_eq] at hfirst
    rw [List.foldl_cons, ih hfirst, List.flatMap_cons, List.map_append, List.append_assoc]

end Touched

/-- **The triples of the relations met** are those of all relations that are looked at, in the order
of first appearance. -/
theorem map_triple_touched (g : Graph S) (kinds known nodes : List String) :
    (known.foldl (g.touch kinds) ⟨nodes, []⟩).relations.map Relation.triple =
      ((known.flatMap (g.around kinds)).map Relation.triple).eraseDups := by
  have hnone : ([] : List (Relation S)).map Relation.triple = [].eraseDups := rfl
  have htouched := Touched.map_triple_foldl_touch (t := ⟨nodes, []⟩) hnone g kinds known
  rwa [List.nil_append] at htouched

/-- **A relation is met** when it is stored, has an allowed type and touches one of the
entities. -/
theorem Tells.mem_touched_iff [Scalar S] {done : List (Insertion S)} (h : g.Tells done)
    {nodes : List String} : r ∈ (known.foldl (g.touch kinds) ⟨nodes, []⟩).relations ↔
      r ∈ g.relations ∧ Allows kinds r.kind ∧
        ∃ id ∈ known, r.source.id = id ∨ r.target.id = id := by
  have htriples := g.map_triple_touched kinds known nodes
  have hmet : ∀ r, r ∈ (known.foldl (g.touch kinds) ⟨nodes, []⟩).relations → r ∈ g.relations :=
    mem_relations_of_touched nofun
  have hall : ∀ r ∈ known.flatMap (g.around kinds), r ∈ g.relations := fun r hr => by
    obtain ⟨id, -, hr⟩ := List.mem_flatMap.1 hr
    exact (mem_around_iff.1 hr).1
  have hinj := List.inj_on_of_nodup_map h.history.relation_triples_nodup
  have hsame : r ∈ (known.foldl (g.touch kinds) ⟨nodes, []⟩).relations ↔
      r ∈ known.flatMap (g.around kinds) := by
    constructor
    · intro hr
      have htriple := List.mem_map_of_mem (f := Relation.triple) hr
      rw [htriples, List.mem_eraseDups] at htriple
      obtain ⟨r', hr', heq⟩ := List.mem_map.1 htriple
      exact hinj (hall r' hr') (hmet r hr) heq ▸ hr'
    · intro hr
      have htriple := List.mem_map_of_mem (f := Relation.triple) hr
      rw [← List.mem_eraseDups, ← htriples] at htriple
      obtain ⟨r', hr', heq⟩ := List.mem_map.1 htriple
      exact hinj (hmet r' hr') (hall r hr) heq ▸ hr'
  rw [hsame, List.mem_flatMap]
  simp only [mem_around_iff]
  constructor
  · rintro ⟨id, hid, hr, hkind, htouches⟩
    exact ⟨hr, hkind, id, hid, htouches⟩
  · rintro ⟨hr, hkind, id, hid, htouches⟩
    exact ⟨id, hid, hr, hkind, htouches⟩

/-! ### The nodes that are met -/

/-- The ends of some relations that are not among some identifiers, in the order of first
appearance. -/
def otherEnds (known : List String) (relations : List (Relation S)) : List String :=
  ((relations.flatMap fun r => [r.source.id, r.target.id]).filter fun id =>
    !known.contains id).eraseDups

theorem mem_otherEnds_iff {relations : List (Relation S)} : id ∈ otherEnds known relations ↔
    id ∉ known ∧ ∃ r ∈ relations, r.source.id = id ∨ r.target.id = id := by
  have hnew : (!known.contains id) = true ↔ id ∉ known := by simp
  rw [otherEnds, List.mem_eraseDups, List.mem_filter, hnew, and_comm, List.mem_flatMap]
  simp only [List.mem_cons, List.not_mem_nil, or_false, eq_comm (a := id)]

/-- A relation at a known entity has one other end, which comes last if it is neither known nor
there already. -/
theorem otherEnds_concat {relations : List (Relation S)} (hid : id ∈ known) {other : String}
    (hends : (r.source.id = id ∧ r.target.id = other) ∨ (r.source.id = other ∧ r.target.id = id)) :
    otherEnds known (relations ++ [r]) =
      if other ∈ known ++ otherEnds known relations then otherEnds known relations
      else otherEnds known relations ++ [other] := by
  have hin : (!known.contains id) = false := by simp [hid]
  rw [otherEnds, List.flatMap_append, List.filter_append, List.flatMap_singleton]
  by_cases hother : other ∈ known
  · have hnone : [r.source.id, r.target.id].filter (fun id => !known.contains id) = [] := by
      rcases hends with ⟨rfl, rfl⟩ | ⟨rfl, rfl⟩ <;> simp [hid, hother]
    rw [hnone, List.append_nil, if_pos (List.mem_append_left _ hother), otherEnds]
  · have hone : [r.source.id, r.target.id].filter (fun id => !known.contains id) = [other] := by
      rcases hends with ⟨rfl, rfl⟩ | ⟨rfl, rfl⟩ <;> simp [hid, hother]
    rw [hone, eraseDups_concat, ← otherEnds]
    refine if_congr ?_ rfl rfl
    rw [List.mem_append, otherEnds, List.mem_eraseDups, or_iff_right hother]

theorem Touched.nodes_meet {t : Touched S}
    (h : t.nodes = known ++ otherEnds known t.relations) (hid : id ∈ known)
    (hends : r.source.id = id ∨ r.target.id = id) :
    (t.meet id r).nodes = known ++ otherEnds known (t.meet id r).relations := by
  unfold meet
  split
  · exact h
  · generalize hother : (if r.source.id == id then r.target.id else r.source.id) = other
    dsimp only
    rw [otherEnds_concat hid (ends_of_other hends hother), ← h, List.contains_eq_mem]
    by_cases hin : other ∈ t.nodes
    · rw [if_pos (decide_eq_true hin), if_pos hin, h]
    · rw [if_neg (by simpa using hin), if_neg hin, h, List.append_assoc]

/-- **The nodes that are met** are the known entities and then the other ends of the relations
met. -/
theorem nodes_touched (g : Graph S) (kinds known : List String) :
    let t := known.foldl (g.touch kinds) ⟨known, []⟩
    t.nodes = known ++ otherEnds known t.relations := by
  refine List.foldlRecOn (motive := fun t : Touched S =>
    t.nodes = known ++ otherEnds known t.relations) known _ (List.append_nil known).symm ?_
  intro t ht id hid
  rw [touch_eq]
  refine List.foldlRecOn (motive := fun t : Touched S =>
    t.nodes = known ++ otherEnds known t.relations) (g.around kinds id) _ ht ?_
  intro t ht r hr
  exact Touched.nodes_meet ht hid (mem_around_iff.1 hr).2.2

/-! ### Shares as fractions -/

/-- Without repetitions a list is as long as it has different items. -/
theorem length_eraseDups (items : List String) : items.eraseDups.length = items.toFinset.card := by
  rw [← List.toFinset_card_of_nodup (nodup_eraseDups items)]
  congr 1
  ext item
  simp

section Shares

variable [Scalar S] [ExactScalar S]

theorem value_knownShare (g : Graph S) (ids : List String) :
    ExactScalar.value (g.knownShare ids : S) =
      ((ids.filter g.hasEntity).length : ℝ) / (ids.length : ℝ) := by
  unfold knownShare
  split
  · rename_i hnone
    rw [List.isEmpty_iff.1 hnone, ExactScalar.value_ofScientific]
    norm_num
  · rw [ExactScalar.value_div, ExactScalar.value_natCast, ExactScalar.value_natCast]

/-- The share of the types that occur is a fraction of the different types. -/
theorem value_kindShare (kinds : List String) (edges : List (AnswerEdge S)) :
    ExactScalar.value (kindShare kinds edges) = if kinds = [] then 0 else
      ((kinds.toFinset.filter fun k => ∃ e ∈ edges, e.relationKind? = some k).card : ℝ) /
        (kinds.toFinset.card : ℝ) := by
  have hfound : (kinds.eraseDups.filter fun k =>
      edges.any fun e => e.relationKind? == some k).length =
        (kinds.toFinset.filter fun k => ∃ e ∈ edges, e.relationKind? = some k).card := by
    rw [← List.toFinset_card_of_nodup ((nodup_eraseDups kinds).filter _)]
    congr 1
    ext k
    simp
  have hnone : kinds.eraseDups.isEmpty = true ↔ kinds = [] := by
    cases kinds with
    | nil => simp
    | cons k kinds => simp [List.eraseDups_cons]
  unfold kindShare
  dsimp only
  by_cases h : kinds = []
  · rw [if_pos (hnone.2 h), if_pos h, ExactScalar.value_ofScientific]
    norm_num
  · rw [if_neg (mt hnone.1 h), if_neg h, ExactScalar.value_div, ExactScalar.value_natCast,
      ExactScalar.value_natCast, length_eraseDups, hfound]

/-- When one at least of the entities is known, the share of those that are counts as much as the
share of the types that occur. -/
theorem value_confidence_touchingSearch {ids : List String} (hknown : ids.filter g.hasEntity ≠ [])
    (kinds : List String) (now : Instant) :
    let a := g.touchingSearch ids kinds now
    ExactScalar.value a.confidence = (ExactScalar.value (g.knownShare ids : S) +
      ExactScalar.value (kindShare kinds a.edges : S)) / 2 := by
  have ha := touchingAnswer_eq hknown kinds (g.knownShare ids) now
  have hedges := congrArg Answer.edges ha
  have hraw := ExactScalar.inUnit_mean (g.inUnit_knownShare ids)
    (inUnit_kindShare kinds (g.touchingSearch ids kinds now).edges)
  rw [touchingSearch, hedges] at hraw
  dsimp only
  rw [touchingSearch, congrArg Answer.confidence ha, hedges,
    ExactScalar.clampUnit_of_inUnit hraw, ExactScalar.value_mean]

end Shares

end Graph

/-- **An answer is the neighborhood of one step** of some identifiers, as far as these are known.
Its edges are the stored relations of a requested type, or of any type when none is requested, that
touch a known identifier, each once. Its nodes are the known identifiers in their order and then the
other ends of these relations, each once. Its confidence is the mean of the fraction of identifiers
that are known and the fraction of the different types requested that occur among the edges, which
is zero when none is requested. -/
structure Query.Answer.OneStep [Scalar S] [ExactScalar S] (a : Answer S) (g : Graph S)
    (ids kinds : List String) (relations : List (Relation S)) : Prop where
  edges_eq : a.edges = relations.map AnswerEdge.ofRelation
  mem_iff : ∀ r, r ∈ relations ↔ r ∈ g.relations ∧ Allows kinds r.kind ∧
    ∃ id ∈ ids.filter g.hasEntity, r.source.id = id ∨ r.target.id = id
  triples_nodup : (relations.map Relation.triple).Nodup
  nodeIds_eq : a.nodeIds =
    ids.filter g.hasEntity ++ Graph.otherEnds (ids.filter g.hasEntity) relations
  nodeIds_nodup : a.nodeIds.Nodup
  nodes : ∀ n ∈ a.nodes, ∃ e ∈ g.entities, n = AnswerNode.ofEntity e
  confidence_eq : ExactScalar.value a.confidence =
    (((ids.filter g.hasEntity).length : ℝ) / (ids.length : ℝ) +
      if kinds = [] then 0 else
        ((kinds.toFinset.filter fun k => ∃ e ∈ a.edges, e.relationKind? = some k).card : ℝ) /
          (kinds.toFinset.card : ℝ)) / 2

namespace Graph

variable [Scalar S] [ExactScalar S] {g : Graph S} {ids : List String} {done : List (Insertion S)}

/-- **What touches some entities is their neighborhood of one step.** -/
theorem Tells.oneStep_touchingSearch (h : g.Tells done) (hids : ids.Nodup)
    (hknown : ids.filter g.hasEntity ≠ []) (kinds : List String) (now : Instant) :
    ∃ relations, (g.touchingSearch ids kinds now).OneStep g ids kinds relations := by
  have ha := touchingAnswer_eq hknown kinds (g.knownShare ids) now
  have hmem : ∀ r, r ∈ ((ids.filter g.hasEntity).foldl (g.touch kinds)
      ⟨ids.filter g.hasEntity, []⟩).relations ↔ r ∈ g.relations ∧ Allows kinds r.kind ∧
        ∃ id ∈ ids.filter g.hasEntity, r.source.id = id ∨ r.target.id = id := fun _ =>
    h.mem_touched_iff
  have htriples := g.map_triple_touched kinds (ids.filter g.hasEntity) (ids.filter g.hasEntity)
  have hnodes := g.nodes_touched kinds (ids.filter g.hasEntity)
  have hconfidence := value_confidence_touchingSearch hknown kinds now
  dsimp only at ha hnodes hconfidence
  rw [touchingSearch, ha] at hconfidence ⊢
  generalize (ids.filter g.hasEntity).foldl (g.touch kinds) ⟨ids.filter g.hasEntity, []⟩ = t
    at hmem htriples hnodes hconfidence
  have hbound : ∀ id ∈ t.nodes, g.hasEntity id = true := by
    rw [hnodes]
    refine List.forall_mem_append.2 ⟨fun id hid => (List.mem_filter.1 hid).2, fun id hid => ?_⟩
    obtain ⟨-, r, hr, hend⟩ := mem_otherEnds_iff.1 hid
    obtain ⟨hsource, htarget⟩ := hasEntity_of_mem_relations ((hmem r).1 hr).1
    rcases hend with rfl | rfl
    · exact hsource
    · exact htarget
  have hnodeIds : (g.answerNodes t.nodes).map AnswerNode.id = t.nodes := by
    rw [map_id_answerNodes, List.filter_eq_self.2 hbound]
  refine ⟨t.relations, rfl, hmem, htriples ▸ nodup_eraseDups _, hnodeIds.trans hnodes, ?_,
    fun _ => exists_entity_of_answerNodes, ?_⟩
  · rw [Answer.nodeIds, hnodeIds, hnodes]
    refine List.nodup_append.2 ⟨hids.filter _, nodup_eraseDups _, ?_⟩
    rintro id hid _ hother rfl
    exact (mem_otherEnds_iff.1 hother).1 hid
  · rw [hconfidence, value_knownShare, value_kindShare]

/-- **The search around some entities finds exactly their neighborhood of one step**, in every graph
that can be grown, for identifiers that do not repeat and of which one at least is known, and for
any types, repeated or not. -/
theorem touchingSearch_grow (calls : List (Insertion S)) (ids kinds : List String) (now : Instant)
    (hids : ids.Nodup) (hknown : ∃ id ∈ ids, (grow empty calls).hasEntity id = true) :
    ∃ relations, ((grow empty calls).touchingSearch ids kinds now).OneStep (grow empty calls) ids
      kinds relations := by
  refine (tells_grow calls).oneStep_touchingSearch hids (fun hnone => ?_) kinds now
  obtain ⟨id, hid, hentity⟩ := hknown
  exact List.filter_eq_nil_iff.1 hnone id hid hentity

/-- A relation from an entity to itself, and two entities that are joined both ways. -/
def selfAndMutual : List (Insertion Fraction) :=
  let entity (id : String) : Entity Fraction := ⟨id, id, "concept", .empty⟩
  let edge (source kind target : String) : Insertion Fraction :=
    .relation ⟨entity source, entity target, kind, 0.5, .empty, none⟩
  [edge "A" "causes" "A", edge "A" "related_to" "B", edge "B" "causes" "A", edge "C" "causes" "A",
    edge "B" "is_a" "D"]

/-- Two of three identifiers are known, and two of three types occur. The relations between the two
known entities, and that from one to itself, are met from both sides and listed once. -/
theorem touchingSearch_grow_selfAndMutual :
    let g := grow empty selfAndMutual
    let ids := ["B", "A", "Z"]
    let kinds := ["causes", "related_to", "part_of", "causes"]
    let a := g.touchingSearch ids kinds ⟨0, 0⟩
    (∃ relations, a.OneStep g ids kinds relations) ∧ a.nodeIds = ["B", "A", "C"] ∧
      (a.edges.map fun e => (e.source, e.relationKind?, e.target)) =
        [("B", some "causes", "A"), ("A", some "related_to", "B"), ("A", some "causes", "A"),
          ("C", some "causes", "A")] ∧
      a.confidence = ⟨2 / 3⟩ := by
  intro g ids kinds a
  have hknown : ∃ id ∈ ids, g.hasEntity id = true := ⟨"A", by decide, by decide +kernel⟩
  exact ⟨touchingSearch_grow selfAndMutual ids kinds ⟨0, 0⟩ (by decide) hknown,
    by decide +kernel, by decide +kernel, by decide +kernel⟩

end Graph

end GraphReasoner
