import GraphReasoner.Proofs.Engine.States
import GraphReasoner.Proofs.Rule.Conflict
import GraphReasoner.Proofs.Rule.Indexed
import GraphReasoner.Proofs.Rule.Valid
import Mathlib.Data.Set.Card

/-!
# One closure step of an engine

What the active rules derive can be made a part of the graph. The call does not fail, because what
is derived is valid and runs between entities of the graph (`GraphReasoner.Engine.Derives.valid`,
`GraphReasoner.Engine.Derives.hasEnds`). It appends exactly the relations whose triples are missing,
each with the greatest confidence with which it can be derived, and nothing else changes in the
graph. So the number it returns tells whether the graph was closed under the active rules, and the
same call again adds nothing (`GraphReasoner.Engine.Reachable.closes`). A graph with indices takes
the same step (`GraphReasoner.Engine.Reachable.closes_indexed`).

That confidences stay in the unit interval and that the greatest one is kept needs numbers that
compute exactly.
-/

namespace GraphReasoner

variable {S M : Type}

/-! ### Appending relations to a graph -/

namespace Graph

section Extend

variable {g : Graph S} {new : List (Relation S)}

/-- The graph with more relations at the end. -/
def extend (g : Graph S) (new : List (Relation S)) : Graph S :=
  { g with records := g.records ++ new.map Relation.toRecord }

/-- The relations of a list whose triples a graph does not have. -/
def missing (g : Graph S) (relations : List (Relation S)) : List (Relation S) :=
  relations.filter fun r => r.triple ∉ g.relations.map Relation.triple

theorem mem_missing {relations : List (Relation S)} {r : Relation S} :
    r ∈ g.missing relations ↔ r ∈ relations ∧ r.triple ∉ g.relations.map Relation.triple := by
  rw [missing, List.mem_filter, decide_eq_true_iff]

theorem extend_nil (g : Graph S) : g.extend [] = g := by
  rw [extend, List.map_nil, List.append_nil]

theorem extend_extend (g : Graph S) (new more : List (Relation S)) :
    (g.extend new).extend more = g.extend (new ++ more) := by
  simp only [extend, List.map_append, List.append_assoc]

/-- The ends of a relation are the entities that a graph has for them. -/
def HasEnds (g : Graph S) (r : Relation S) : Prop :=
  g.entity? r.source.id = some r.source ∧ g.entity? r.target.id = some r.target

theorem HasEnds.resolve? {r : Relation S} (h : g.HasEnds r) : g.resolve? r.toRecord = some r :=
  resolve?_eq_some_iff.2 ⟨r.source, r.target, h.1, h.2, rfl⟩

theorem HasEnds.bind_bind {r : Relation S} (h : g.HasEnds r) :
    (g.bind r.source).bind r.target = g := by
  have hsource : g.bind r.source = g := if_pos (hasEntity_iff.2 ⟨_, h.1⟩)
  rw [hsource]
  exact if_pos (hasEntity_iff.2 ⟨_, h.2⟩)

theorem hasEnds_of_mem {r : Relation S} (h : r ∈ g.relations) : g.HasEnds r := by
  obtain ⟨record, -, hres⟩ := mem_relations_iff.1 h
  obtain ⟨s, t, hs, ht, rfl⟩ := resolve?_eq_some_iff.1 hres
  rw [HasEnds, Record.between, id_of_entity? hs, id_of_entity? ht]
  exact ⟨hs, ht⟩

/-- **Relations between entities of the graph come after the ones that are there.** -/
theorem relations_extend (h : ∀ r ∈ new, g.HasEnds r) :
    (g.extend new).relations = g.relations ++ new := by
  have hnew : (new.map Relation.toRecord).filterMap g.resolve? = new := by
    rw [List.filterMap_map]
    exact (List.filterMap_congr fun r hr => (h r hr).resolve?).trans List.filterMap_some
  have hold : (g.extend new).relations =
      (g.records ++ new.map Relation.toRecord).filterMap g.resolve? := rfl
  rw [hold, List.filterMap_append, hnew, relations]

theorem Resolves.extend (hg : g.Resolves) (h : ∀ r ∈ new, g.HasEnds r) :
    (g.extend new).Resolves := by
  intro record hrecord
  rcases List.mem_append.1 hrecord with hold | hnew
  · exact hg record hold
  · obtain ⟨r, hr, rfl⟩ := List.mem_map.1 hnew
    exact ⟨r, (h r hr).resolve?⟩

theorem relation?_eq_none_iff_not_mem {r : Relation S} :
    g.relation? r.source.id r.target.id r.kind = none ↔
      r.triple ∉ g.relations.map Relation.triple := by
  rw [relation?_eq_none_iff, List.mem_map]
  simp only [not_exists, not_and]
  rfl

theorem exists_relation?_of_mem {r : Relation S}
    (h : r.triple ∈ g.relations.map Relation.triple) :
    ∃ found, g.relation? r.source.id r.target.id r.kind = some found :=
  Option.ne_none_iff_exists'.1 fun hnone => relation?_eq_none_iff_not_mem.1 hnone h

/-- **A valid relation with a new triple is appended.** -/
theorem addRelation_eq_extend [Scalar S] (hg : g.Resolves) {r : Relation S}
    (hvalid : r.validate = .ok ()) (hends : g.HasEnds r)
    (hnew : r.triple ∉ g.relations.map Relation.triple) :
    g.addRelation r = .ok (g.extend [r]) := by
  have hput : put g.records r.toRecord = g.records ++ [r.toRecord] := by
    refine put_eq_append fun old hold heq => hnew ?_
    obtain ⟨rel, hres⟩ := hg old hold
    have htriple : rel.triple = r.triple := (triple_of_resolve? hres).trans heq
    exact htriple ▸ List.mem_map_of_mem (mem_relations_iff.2 ⟨old, hold, hres⟩)
  refine addRelation_eq_ok_iff.2 ⟨hvalid, ?_⟩
  rw [hends.bind_bind, hput]
  rfl

/-- No triple is missing from the graph that got what was missing. -/
theorem triple_mem_extend_missing {relations : List (Relation S)}
    (hends : ∀ r ∈ relations, g.HasEnds r) {r : Relation S} (hr : r ∈ relations) :
    r.triple ∈ (g.extend (g.missing relations)).relations.map Relation.triple := by
  have hnew : ∀ r ∈ g.missing relations, g.HasEnds r := fun r hr => hends r (mem_missing.1 hr).1
  rw [relations_extend hnew, List.map_append, List.mem_append]
  by_cases hin : r.triple ∈ g.relations.map Relation.triple
  · exact Or.inl hin
  · exact Or.inr (List.mem_map_of_mem (mem_missing.2 ⟨hr, hin⟩))

end Extend

end Graph

namespace Engine

/-- **The missing relations of a list are appended**, if all are valid and no triple repeats. -/
theorem addMissing_eq [Scalar S] {g : Graph S} (hg : g.Resolves) (added : Nat)
    {relations : List (Relation S)} (hvalid : ∀ r ∈ relations, r.validate = .ok ())
    (hends : ∀ r ∈ relations, g.HasEnds r) (hnodup : (relations.map Relation.triple).Nodup) :
    addMissing g added relations =
      (.ok (added + (g.missing relations).length), g.extend (g.missing relations)) := by
  induction relations generalizing g added with
  | nil => rw [Graph.missing, List.filter_nil, Graph.extend_nil]; rfl
  | cons r relations ih =>
    rw [List.forall_mem_cons] at hvalid hends
    rw [List.map_cons, List.nodup_cons] at hnodup
    by_cases hin : r.triple ∈ g.relations.map Relation.triple
    · obtain ⟨found, hfound⟩ := Graph.exists_relation?_of_mem hin
      have hmissing : g.missing (r :: relations) = g.missing relations :=
        List.filter_cons_of_neg (by simpa using hin)
      rw [addMissing_cons_of_found hfound, ih hg added hvalid.2 hends.2 hnodup.2, hmissing]
    · have hadd := Graph.addRelation_eq_extend hg hvalid.1 hends.1 hin
      have hmissing : g.missing (r :: relations) = r :: g.missing relations :=
        List.filter_cons_of_pos (by simpa using hin)
      have hends' : ∀ other ∈ [r], g.HasEnds other := List.forall_mem_singleton.2 hends.1
      -- the other triples are missing as before, as they differ from the one that was added
      have hothers : (g.extend [r]).missing relations = g.missing relations := by
        refine List.filter_congr fun other hother => ?_
        have hne : other.triple ≠ r.triple := fun heq => hnodup.1 (heq ▸ List.mem_map_of_mem hother)
        rw [Graph.relations_extend hends', List.map_append, List.map_singleton]
        simp [hne]
      rw [addMissing_cons_of_added (Graph.relation?_eq_none_iff_not_mem.2 hin) hadd,
        ih (hg.extend hends') (added + 1) hvalid.2 hends.2 hnodup.2, hothers, Graph.extend_extend,
        hmissing, List.length_cons, List.singleton_append, Nat.add_right_comm, Nat.add_assoc]

/-- Where all triples are there already nothing is added. -/
theorem addMissing_of_forall_mem [Scalar S] {g : Graph S} {relations : List (Relation S)}
    (h : ∀ r ∈ relations, r.triple ∈ g.relations.map Relation.triple) (added : Nat) :
    addMissing g added relations = (.ok added, g) := by
  induction relations with
  | nil => rfl
  | cons r relations ih =>
    rw [List.forall_mem_cons] at h
    obtain ⟨found, hfound⟩ := Graph.exists_relation?_of_mem h.1
    rw [addMissing_cons_of_found hfound]
    exact ih h.2

/-! ### What an engine derives -/

section Derives

variable [Scalar S]

/-- **A relation is derived** when an active rule concludes it from two relations of the graph. -/
def Derives (e : Engine S M) (r : Relation S) : Prop :=
  ∃ rule ∈ e.rules.active, ∃ head ∈ e.graph.relations, ∃ last ∈ e.graph.relations,
    rule.Composes head last ∧ rule.consequence head last = r

/-- The triples that are derived and that the graph does not have. -/
def missing (e : Engine S M) : Set (String × String × String) :=
  {triple | (∃ r, e.Derives r ∧ r.triple = triple) ∧
    triple ∉ e.graph.relations.map Relation.triple}

/-- **The graph is closed under the active rules**: every path that one of them is about has its
edge. -/
def Closed (e : Engine S M) : Prop :=
  ∀ rule ∈ e.rules.active, ∀ head ∈ e.graph.relations, ∀ last ∈ e.graph.relations,
    rule.Composes head last →
      (head.source.id, last.target.id, rule.conclusion) ∈ e.graph.relations.map Relation.triple

/-- **One closure step** leads from one engine to another by adding a number of relations. -/
structure Closes (e e' : Engine S M) (added : Nat) (new : List (Relation S)) : Prop where
  /-- No entity is added. -/
  entities : e'.graph.entities = e.graph.entities
  /-- What was there stays as it is and where it is, and what is new comes last. -/
  relations : e'.graph.relations = e.graph.relations ++ new
  /-- What is new has exactly the triples that were missing, each once. -/
  mem_triples : ∀ triple, triple ∈ new.map Relation.triple ↔ triple ∈ e.missing
  triples_nodup : (new.map Relation.triple).Nodup
  /-- The number of triples that were missing is counted. -/
  added_eq : added = e.missing.ncard
  /-- What is new is derived, and no derivation of the same triple is more confident. -/
  derived : ∀ r ∈ new, e.Derives r
  greatest : ∀ r ∈ new, ∀ other, e.Derives other → other.triple = r.triple →
    other.confidence ≤ r.confidence
  /-- Nothing is added exactly when the graph was closed. -/
  added_eq_zero_iff : added = 0 ↔ e.Closed

variable {e : Engine S M} {r : Relation S}

theorem mem_inferGraph (hg : e.graph.Resolves) :
    r ∈ (e.rules.inferGraph e.graph).derived ↔ e.Derives r := by
  have hexact : (e.rules.inferGraph e.graph).derived =
      e.rules.active.flatMap fun rule => rule.consequences e.graph.relations :=
    (Derivation.exact_foldl hg e.rules.active).derived
  rw [hexact, List.mem_flatMap]
  simp only [Rule.mem_consequences]
  rfl

theorem Derives.hasEnds (h : e.Derives r) : e.graph.HasEnds r := by
  obtain ⟨rule, -, head, hhead, last, hlast, -, rfl⟩ := h
  exact ⟨(Graph.hasEnds_of_mem hhead).1, (Graph.hasEnds_of_mem hlast).2⟩

/-- **What is derived from valid relations by valid rules is valid.** -/
theorem Derives.valid [ExactScalar S] (h : e.Derives r)
    (hrelations : ∀ r ∈ e.graph.relations, r.validate = .ok ())
    (hrules : ∀ rule ∈ e.rules.rules, rule.validate = .ok ()) : r.validate = .ok () := by
  obtain ⟨rule, hrule, head, hhead, last, hlast, -, rfl⟩ := h
  exact Rule.valid_consequence (hrules rule (List.mem_filter.1 hrule).1) (hrelations head hhead)
    (hrelations last hlast)

/-- No triple is missing exactly when the graph is closed. -/
theorem missing_eq_empty_iff : e.missing = ∅ ↔ e.Closed := by
  rw [Set.eq_empty_iff_forall_notMem]
  constructor
  · intro h rule hrule head hhead last hlast hcomposes
    by_contra hnot
    exact h _ ⟨⟨_, ⟨rule, hrule, head, hhead, last, hlast, hcomposes, rfl⟩, rfl⟩, hnot⟩
  · rintro h _ ⟨⟨_, ⟨rule, hrule, head, hhead, last, hlast, hcomposes, rfl⟩, rfl⟩, hnot⟩
    exact hnot (h rule hrule head hhead last hlast hcomposes)

end Derives

/-! ### The step -/

section Step

variable [Scalar S] [ExactScalar S] {e : Engine S M}

/-- What an engine infers is settled. -/
theorem settled_infer (e : Engine S M) :
    Settled (e.rules.inferGraph e.graph).derived e.infer.derived :=
  settled_resolveConflicts fun r _ => ExactScalar.beq_self r.confidence

theorem derives_of_mem_infer (hg : e.graph.Resolves) {r : Relation S} (h : r ∈ e.infer.derived) :
    e.Derives r :=
  (mem_inferGraph hg).1 ((settled_infer e).subset h)

/-- **The triples that are missing are those of the inferred relations that are missing.** -/
theorem mem_map_triple_missing (hg : e.graph.Resolves) {triple : String × String × String} :
    triple ∈ (e.graph.missing e.infer.derived).map Relation.triple ↔ triple ∈ e.missing := by
  constructor
  · intro h
    obtain ⟨r, hr, rfl⟩ := List.mem_map.1 h
    obtain ⟨hinferred, hnew⟩ := Graph.mem_missing.1 hr
    exact ⟨⟨r, derives_of_mem_infer hg hinferred, rfl⟩, hnew⟩
  · rintro ⟨⟨r, hr, rfl⟩, hnew⟩
    -- the triple is kept, perhaps with another relation
    have hin := (settled_infer e).mem_triples.2 (List.mem_map_of_mem ((mem_inferGraph hg).2 hr))
    obtain ⟨kept, hkept, htriple⟩ := List.mem_map.1 hin
    exact List.mem_map.2 ⟨kept, Graph.mem_missing.2 ⟨hkept, htriple ▸ hnew⟩, htriple⟩

theorem nodup_map_triple_missing (e : Engine S M) :
    ((e.graph.missing e.infer.derived).map Relation.triple).Nodup :=
  (settled_infer e).triples_nodup.sublist (List.filter_sublist.map _)

/-- As many triples are missing as inferred relations. -/
theorem length_missing (hg : e.graph.Resolves) :
    (e.graph.missing e.infer.derived).length = e.missing.ncard := by
  have hset : e.missing = ((e.graph.missing e.infer.derived).map Relation.triple).toFinset := by
    ext triple
    rw [← mem_map_triple_missing hg, Finset.mem_coe, List.mem_toFinset]
  rw [hset, Set.ncard_coe_finset, List.toFinset_card_of_nodup (nodup_map_triple_missing e),
    List.length_map]

/-- **Appending the inferred relations that are missing is a closure step.** -/
theorem closes_extend (hg : e.graph.Resolves) (e' : Engine S M)
    (he' : e'.graph = e.graph.extend (e.graph.missing e.infer.derived)) :
    e.Closes e' (e.graph.missing e.infer.derived).length
      (e.graph.missing e.infer.derived) := by
  have hderives : ∀ r ∈ e.graph.missing e.infer.derived, e.Derives r := fun r hr =>
    derives_of_mem_infer hg (Graph.mem_missing.1 hr).1
  refine
    { entities := by rw [he']; rfl
      relations := by rw [he', Graph.relations_extend fun r hr => (hderives r hr).hasEnds]
      mem_triples := fun _ => mem_map_triple_missing hg
      triples_nodup := nodup_map_triple_missing e
      added_eq := length_missing hg
      derived := hderives
      greatest := ?_
      added_eq_zero_iff := ?_ }
  · intro r hr other hother htriple
    have hinferred := (Graph.mem_missing.1 hr).1
    exact (settled_infer e).greatest r hinferred other ((mem_inferGraph hg).2 hother) htriple
  · rw [← missing_eq_empty_iff, List.length_eq_zero_iff,
      ← List.map_eq_nil_iff (f := Relation.triple), List.eq_nil_iff_forall_not_mem,
      Set.eq_empty_iff_forall_notMem]
    simp only [mem_map_triple_missing hg]

end Step

variable [Numeral S] [ExactScalar S] [Medium M]

/-- **What is inferred in a state of an engine becomes a part of the graph**, all of it. -/
theorem Reachable.adds_missing {e : Engine S M} (he : e.Reachable) :
    ∃ g' new, addMissing e.graph 0 e.infer.derived = (.ok new.length, g') ∧
      (∀ e' : Engine S M, e'.graph = g' → e.Closes e' new.length new) ∧
      ∀ r ∈ e.infer.derived, r.triple ∈ g'.relations.map Relation.triple := by
  obtain ⟨calls, hcalls⟩ := he.exists_calls
  have htells : e.graph.Tells (Graph.accepted Graph.empty calls) := hcalls ▸ Graph.tells_grow calls
  have hg : e.graph.Resolves := htells.resolves
  have hvalid : ∀ r ∈ e.infer.derived, r.validate = .ok () := fun r hr =>
    (derives_of_mem_infer hg hr).valid (fun _ hrelation => htells.relation_valid hrelation)
      he.rules_reachable.rules_valid
  have hends : ∀ r ∈ e.infer.derived, e.graph.HasEnds r := fun r hr =>
    (derives_of_mem_infer hg hr).hasEnds
  have hadd := addMissing_eq hg 0 hvalid hends (settled_infer e).triples_nodup
  rw [Nat.zero_add] at hadd
  exact ⟨_, _, hadd, closes_extend hg, fun _ => Graph.triple_mem_extend_missing hends⟩

/-- **One closure step.** In every state of an engine the call that makes the derived relations a
part of the graph succeeds and adds exactly what is missing; and the same call again adds nothing
and changes nothing. -/
theorem Reachable.closes {e : Engine S M} (he : e.Reachable) :
    ∃ added e' new, e.materialize e.infer.derived = (.ok added, e') ∧ e.Closes e' added new ∧
      e'.materialize e.infer.derived = (.ok 0, e') := by
  obtain ⟨g', new, hfirst, hcloses, hall⟩ := he.adds_missing
  exact ⟨_, _, new, materialize_of_added hfirst, hcloses _ rfl,
    materialize_of_added (addMissing_of_forall_mem hall 0)⟩

/-- An engine over two paths from one end to the other, the second one stronger. -/
def diamond : Engine Fraction Memory where
  settings := .default
  graph :=
    let entity (id : String) : Entity Fraction := ⟨id, id, "concept", .empty⟩
    let edge (source target : String) (confidence : Fraction) : Graph.Insertion Fraction :=
      .relation ⟨entity source, entity target, "is_a", confidence, .empty, none⟩
    .grow .empty [edge "A" "B" 0.5, edge "B" "D" 1.0, edge "A" "C" 1.0, edge "C" "D" 1.0]
  cache := .openOn .empty ⟨100000, 3600⟩ ⟨0, 0⟩
  rules := .builtin ⟨0, 0⟩
  chains := .empty .default
  planner := .empty .default

/-- A closure step over the two paths adds one relation. -/
theorem closes_diamond : diamond.Reachable ∧
    ∃ e' new, diamond.materialize diamond.infer.derived = (.ok 1, e') ∧ diamond.Closes e' 1 new ∧
      e'.materialize diamond.infer.derived = (.ok 0, e') := by
  have made : make diamond.settings diamond.graph diamond.cache diamond.rules = .ok diamond := by
    with_unfolding_all rfl
  have hreachable : diamond.Reachable := .make _ (.builtin ⟨0, 0⟩) made
  have hadded : (diamond.materialize diamond.infer.derived).1 = .ok 1 := by
    with_unfolding_all rfl
  obtain ⟨added, e', new, hfirst, hcloses, hagain⟩ := hreachable.closes
  obtain rfl : added = 1 := Except.ok.inj ((congrArg Prod.fst hfirst).symm.trans hadded)
  exact ⟨hreachable, e', new, hfirst, hcloses, hagain⟩

end Engine

/-! ### The step on a graph with indices -/

namespace IndexedGraph

section AddMissing

variable [Scalar S] {g : IndexedGraph S}

/-- **Adding what is missing follows the plain graph**, refusals included. -/
theorem Sound.addMissing (h : g.Sound) (added : Nat) (relations : List (Relation S)) :
    (g.addMissing added relations).2.Sound ∧
      Engine.addMissing g.toGraph added relations =
        ((g.addMissing added relations).1, (g.addMissing added relations).2.toGraph) := by
  induction relations generalizing g added with
  | nil => exact ⟨h, rfl⟩
  | cons r relations ih =>
    obtain ⟨hsound, hgraph⟩ := h.addRelation r
    rw [IndexedGraph.addMissing, Engine.addMissing, h.relation?_toGraph]
    rcases g.relation? r.source.id r.target.id r.kind with _ | found
    · simp only [← hgraph]
      rcases hadd : g.addRelation r with error | g'
      · exact ⟨h, rfl⟩
      · exact ih (hsound g' hadd) (added + 1)
    · exact ih h added

/-- Where all triples are there already nothing is added, to no index either. -/
theorem Sound.addMissing_of_forall_mem (h : g.Sound) {relations : List (Relation S)}
    (hall : ∀ r ∈ relations, r.triple ∈ g.relations.map Relation.triple) (added : Nat) :
    g.addMissing added relations = (.ok added, g) := by
  rw [← h.relations_toGraph] at hall
  induction relations with
  | nil => rfl
  | cons r relations ih =>
    rw [List.forall_mem_cons] at hall
    obtain ⟨found, hfound⟩ := Graph.exists_relation?_of_mem hall.1
    rw [IndexedGraph.addMissing, ← h.relation?_toGraph, hfound]
    exact ih hall.2

end AddMissing

end IndexedGraph

namespace Engine

variable [Numeral S] [ExactScalar S] [Medium M]

omit [ExactScalar S] in
/-- In every state of an engine its graph is the plain one of a graph with indices. -/
theorem Reachable.exists_indexed {e : Engine S M} (he : e.Reachable) :
    ∃ g : IndexedGraph S, g.Sound ∧ g.toGraph = e.graph := by
  obtain ⟨calls, hcalls⟩ := he.exists_calls
  obtain ⟨hsound, hgraph⟩ := IndexedGraph.sound_grow calls
  exact ⟨_, hsound, hgraph.trans hcalls.symm⟩

/-- **One closure step on a graph with indices.** The graph of an engine is the plain one of a graph
with indices. What the rules find through the indices becomes a part of that graph, and the
relations that were missing are its last ones then. Its plain graph is the one to which the closure
step of the engine leads. The same call again adds nothing and leaves every index as it is. -/
theorem Reachable.closes_indexed {e : Engine S M} (he : e.Reachable) :
    (∃ g : IndexedGraph S, g.Sound ∧ g.toGraph = e.graph) ∧
    ∀ g : IndexedGraph S, g.Sound → g.toGraph = e.graph →
      let inferred := resolveConflicts (e.rules.inferGraphIndexed g).derived
      ∃ added g' e' new, g.addMissing 0 inferred = (.ok added, g') ∧ g'.Sound ∧
        e.materialize e.infer.derived = (.ok added, e') ∧ g'.toGraph = e'.graph ∧
        e.Closes e' added new ∧ g'.entities = g.entities ∧ g'.relations = g.relations ++ new ∧
        g'.addMissing 0 inferred = (.ok 0, g') := by
  refine ⟨he.exists_indexed, fun g h hgraph => ?_⟩
  have hinferred : resolveConflicts (e.rules.inferGraphIndexed g).derived = e.infer.derived := by
    rw [h.inferGraphIndexed_eq, hgraph]
    rfl
  obtain ⟨g₁, new, hfirst, hcloses, hall⟩ := he.adds_missing
  obtain ⟨hsound, hadd⟩ := h.addMissing 0 e.infer.derived
  rw [hgraph, hfirst, Prod.mk.injEq] at hadd
  obtain ⟨hadded, rfl⟩ := hadd
  rw [hsound.relations_toGraph] at hall
  have hmade := hcloses { e with graph := (g.addMissing 0 e.infer.derived).2.toGraph } rfl
  rw [hinferred]
  refine ⟨_, _, _, new, Prod.ext hadded.symm rfl, hsound, materialize_of_added hfirst, rfl,
    hcloses _ rfl, ?_, ?_, hsound.addMissing_of_forall_mem hall 0⟩
  · exact hmade.entities.trans (congrArg Graph.entities hgraph).symm
  · rw [← hsound.relations_toGraph, ← h.relations_toGraph, hgraph]
    exact hmade.relations

end Engine

end GraphReasoner
