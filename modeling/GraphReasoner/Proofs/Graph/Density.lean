import GraphReasoner.Proofs.Exact
import GraphReasoner.Proofs.Graph.Views
import Mathlib.Data.Finset.Prod

/-!
# Density is a share of the ordered pairs of entities

The density of a graph is the number of ordered pairs of different entities that are joined, over
the number of all such pairs. The pairs that are joined are listed once each, whatever the types of
their relations, and are among all pairs, so the density is in the unit interval and takes its two
bounds when all pairs are joined and when none is.

A relation that is added between entities of the graph puts at most its own pair in the list
(`GraphReasoner.Graph.joinedPairs_put`). It does so when its ends are different and have not been
joined before.

The graph with indices lists pairs of places, takes the number of entities from the index of the
identifiers, and has the same density (`GraphReasoner.IndexedGraph.Sound.density_toGraph`).

* `GraphReasoner.IndexedGraph.SharesPairs` – what the density of a graph is;
* `GraphReasoner.IndexedGraph.sharesPairs_grow` – every graph that grew to two entities has it.
-/

namespace GraphReasoner

variable {S : Type}

namespace Graph

variable {g : Graph S} {s t : String}

/-! ### The pairs that are joined -/

theorem mem_joinedPairs : (s, t) ∈ g.joinedPairs ↔
    s ≠ t ∧ ∃ r ∈ g.records, r.source = s ∧ r.target = t := by
  rw [joinedPairs, List.mem_eraseDups, List.mem_map]
  constructor
  · rintro ⟨r, hr, hpair⟩
    obtain ⟨rfl, rfl⟩ := Prod.mk.inj hpair
    obtain ⟨hr, hne⟩ := List.mem_filter.1 hr
    exact ⟨bne_iff_ne.1 hne, r, hr, rfl, rfl⟩
  · rintro ⟨hne, r, hr, rfl, rfl⟩
    exact ⟨r, List.mem_filter.2 ⟨hr, bne_iff_ne.2 hne⟩, rfl⟩

/-- The pairs of different entities in some triples of source, target and type. -/
def pairsOf (triples : List (String × String × String)) : List (String × String) :=
  (triples.filter fun triple => triple.1 != triple.2.1).map fun triple => (triple.1, triple.2.1)

theorem pairsOf_concat (triples : List (String × String × String)) (s t kind : String) :
    pairsOf (triples ++ [(s, t, kind)]) =
      if s = t then pairsOf triples else pairsOf triples ++ [(s, t)] := by
  rw [pairsOf, List.filter_append, List.map_append]
  by_cases hloop : s = t <;> simp [pairsOf, hloop]

theorem joinedPairs_eq (g : Graph S) :
    g.joinedPairs = (pairsOf (g.records.map Record.triple)).eraseDups := by
  rw [joinedPairs, pairsOf, List.filter_map, List.map_map]
  rfl

/-- **A record that is put adds its pair**, unless it is a loop or the pair is joined. -/
theorem joinedPairs_put (g : Graph S) (r : Record S) :
    { g with records := put g.records r }.joinedPairs =
      if r.source = r.target ∨ (r.source, r.target) ∈ g.joinedPairs then g.joinedPairs
      else g.joinedPairs ++ [(r.source, r.target)] := by
  rw [joinedPairs_eq, map_triple_put]
  by_cases hin : r.triple ∈ g.records.map Record.triple
  · -- an older record has the same ends, so they are one entity or a pair that is listed
    have hold : r.source = r.target ∨ (r.source, r.target) ∈ g.joinedPairs := by
      obtain ⟨old, hold, htriple⟩ := List.mem_map.1 hin
      obtain ⟨hsource, hrest⟩ := Prod.mk.inj htriple
      refine or_iff_not_imp_left.2 fun hloop => ?_
      exact mem_joinedPairs.2 ⟨hloop, old, hold, hsource, (Prod.mk.inj hrest).1⟩
    rw [if_pos hin, if_pos hold, joinedPairs_eq]
  · rw [if_neg hin, Record.triple, pairsOf_concat]
    by_cases hloop : r.source = r.target
    · rw [if_pos hloop, if_pos (Or.inl hloop), joinedPairs_eq]
    · rw [if_neg hloop, eraseDups_concat, joinedPairs_eq]
      simp only [List.mem_eraseDups, hloop, false_or]

/-! ### Counting pairs -/

/-- The number of ordered pairs of different entities. -/
def pairCount (g : Graph S) : Nat :=
  g.nodeCount * (g.nodeCount - 1)

theorem pairCount_pos (h : 2 ≤ g.nodeCount) : 0 < g.pairCount :=
  Nat.mul_pos (by omega) (by omega)

theorem nodup_joinedPairs (g : Graph S) : g.joinedPairs.Nodup :=
  nodup_eraseDups _

theorem card_joinedPairs (g : Graph S) : g.joinedPairs.toFinset.card = g.joinedPairs.length :=
  List.toFinset_card_of_nodup g.nodup_joinedPairs

theorem joinedPairs_eq_nil_iff : g.joinedPairs = [] ↔ ∀ r ∈ g.records, r.source = r.target := by
  rw [List.eq_nil_iff_forall_not_mem]
  constructor
  · intro h r hr
    by_contra hne
    exact h (r.source, r.target) (mem_joinedPairs.2 ⟨hne, r, hr, rfl, rfl⟩)
  · rintro h ⟨s, t⟩ hmem
    obtain ⟨hne, r, hr, rfl, rfl⟩ := mem_joinedPairs.1 hmem
    exact hne (h r hr)

theorem mem_ids_iff {id : String} :
    id ∈ (g.entities.map Entity.id).toFinset ↔ g.hasEntity id = true := by
  simp [hasEntity]

section Counting

variable [Scalar S] {done : List (Insertion S)} (h : g.Tells done)
include h

theorem Tells.card_offDiag : (g.entities.map Entity.id).toFinset.offDiag.card = g.pairCount := by
  rw [Finset.offDiag_card, List.toFinset_card_of_nodup h.history.entity_ids_nodup,
    List.length_map, ← Nat.mul_sub_one]
  rfl

/-- **What is joined are pairs of different entities.** -/
theorem Tells.joinedPairs_subset :
    g.joinedPairs.toFinset ⊆ (g.entities.map Entity.id).toFinset.offDiag := by
  rintro ⟨s, t⟩ hmem
  obtain ⟨hne, r, hr, rfl, rfl⟩ := mem_joinedPairs.1 (List.mem_toFinset.1 hmem)
  obtain ⟨-, -, source, target, hs, ht, -⟩ := h.resolve_of_mem hr
  exact Finset.mem_offDiag.2 ⟨mem_ids_iff.2 (hasEntity_iff.2 ⟨source, hs⟩),
    mem_ids_iff.2 (hasEntity_iff.2 ⟨target, ht⟩), hne⟩

theorem Tells.length_joinedPairs_le : g.joinedPairs.length ≤ g.pairCount := by
  rw [← card_joinedPairs, ← h.card_offDiag]
  exact Finset.card_le_card h.joinedPairs_subset

/-- **As many pairs are joined as there are** exactly when all are. -/
theorem Tells.length_joinedPairs_eq_iff : g.joinedPairs.length = g.pairCount ↔
    ∀ s t, g.hasEntity s = true → g.hasEntity t = true → s ≠ t → (s, t) ∈ g.joinedPairs := by
  rw [← card_joinedPairs, ← h.card_offDiag]
  constructor
  · intro hcard s t hs ht hne
    -- a part that is as large as the whole is the whole
    have hall := Finset.eq_of_subset_of_card_le h.joinedPairs_subset (Nat.le_of_eq hcard.symm)
    rw [← List.mem_toFinset, hall]
    exact Finset.mem_offDiag.2 ⟨mem_ids_iff.2 hs, mem_ids_iff.2 ht, hne⟩
  · intro hall
    refine congrArg Finset.card (Finset.Subset.antisymm h.joinedPairs_subset ?_)
    rintro ⟨s, t⟩ hmem
    obtain ⟨hs, ht, hne⟩ := Finset.mem_offDiag.1 hmem
    exact List.mem_toFinset.2 (hall s t (mem_ids_iff.1 hs) (mem_ids_iff.1 ht) hne)

end Counting

/-! ### Density -/

section Density

variable [Scalar S] [ExactScalar S]

open ExactScalar (value)

/-- The density is a share when there are pairs at all. -/
theorem value_density (h : 2 ≤ g.nodeCount) :
    value g.density = (g.joinedPairs.length : ℝ) / g.pairCount := by
  rw [density, if_neg (Nat.not_lt.2 h), pairCount, Nat.cast_mul, Nat.cast_sub (by omega)]
  norm_num

variable {done : List (Insertion S)} (hg : g.Tells done) (h : 2 ≤ g.nodeCount)
include hg h

theorem Tells.inUnit_density : Scalar.InUnit g.density := by
  have hpos : (0 : ℝ) < g.pairCount := Nat.cast_pos.2 (pairCount_pos h)
  have hle : (g.joinedPairs.length : ℝ) ≤ g.pairCount := Nat.cast_le.2 hg.length_joinedPairs_le
  rw [ExactScalar.inUnit_iff, value_density h]
  exact ⟨by positivity, (div_le_one hpos).2 hle⟩

theorem Tells.density_eq_one_iff : value g.density = 1 ↔
    ∀ s t, g.hasEntity s = true → g.hasEntity t = true → s ≠ t → (s, t) ∈ g.joinedPairs := by
  have hpos : (0 : ℝ) < g.pairCount := Nat.cast_pos.2 (pairCount_pos h)
  rw [value_density h, div_eq_one_iff_eq hpos.ne', Nat.cast_inj, hg.length_joinedPairs_eq_iff]

omit hg in
theorem density_eq_zero_iff : value g.density = 0 ↔ ∀ r ∈ g.records, r.source = r.target := by
  have hpos : (0 : ℝ) < g.pairCount := Nat.cast_pos.2 (pairCount_pos h)
  rw [value_density h, div_eq_zero_iff, or_iff_left hpos.ne', Nat.cast_eq_zero,
    List.length_eq_zero_iff, joinedPairs_eq_nil_iff]

end Density

/-! ### Adding a relation -/

/-- The density depends on two numbers. -/
theorem density_congr [Scalar S] {g' : Graph S} (hcount : g'.nodeCount = g.nodeCount)
    (hpairs : g'.joinedPairs.length = g.joinedPairs.length) : g'.density = g.density := by
  rw [density, density, hcount, hpairs]

section Growth

variable [Scalar S] {r : Relation S} (hsource : g.hasEntity r.source.id = true)
  (htarget : g.hasEntity r.target.id = true)
include hsource htarget

/-- **A relation between entities of the graph** adds nothing but its record. -/
theorem after_relation : g.after (.relation r) =
    match r.validate with
    | .ok _ => { g with records := put g.records r.toRecord }
    | .error _ => g := by
  rw [after, insert, addRelation_eq, bind_eq_self hsource, bind_eq_self htarget]
  rcases r.validate with error | ⟨⟩ <;> rfl

theorem nodeCount_after : (g.after (.relation r)).nodeCount = g.nodeCount := by
  rw [after_relation hsource htarget]
  rcases r.validate with error | ⟨⟩ <;> rfl

/-- **A loop or a relation between entities that are joined** leaves the density alone. -/
theorem density_after_of_joined
    (hjoined : r.source.id = r.target.id ∨ (r.source.id, r.target.id) ∈ g.joinedPairs) :
    (g.after (.relation r)).density = g.density := by
  refine density_congr (nodeCount_after hsource htarget) (congrArg List.length ?_)
  rw [after_relation hsource htarget]
  rcases r.validate with error | ⟨⟩
  · rfl
  · exact (g.joinedPairs_put r.toRecord).trans (if_pos hjoined)

variable [ExactScalar S]

open ExactScalar (value)

/-- **The first relation from one entity to another** adds the share of a pair. -/
theorem value_density_after (h : 2 ≤ g.nodeCount) (hvalid : r.validate = .ok ())
    (hnew : ¬(r.source.id = r.target.id ∨ (r.source.id, r.target.id) ∈ g.joinedPairs)) :
    value (g.after (.relation r)).density = value g.density + 1 / g.pairCount := by
  have hcount := nodeCount_after hsource htarget
  have hpairs : (g.after (.relation r)).joinedPairs =
      g.joinedPairs ++ [(r.source.id, r.target.id)] := by
    rw [after_relation hsource htarget, hvalid]
    exact (g.joinedPairs_put r.toRecord).trans (if_neg hnew)
  rw [value_density (hcount.symm ▸ h), value_density h, hpairs, pairCount, hcount, ← pairCount,
    List.length_append, List.length_singleton, Nat.cast_add, Nat.cast_one, add_div]

/-- **A relation between entities of the graph never lowers the density.** -/
theorem density_le_after (h : 2 ≤ g.nodeCount) : g.density ≤ (g.after (.relation r)).density := by
  by_cases hjoined : r.source.id = r.target.id ∨ (r.source.id, r.target.id) ∈ g.joinedPairs
  · rw [density_after_of_joined hsource htarget hjoined]
    exact ExactScalar.le_self _
  rcases hvalid : r.validate with error | ⟨⟩
  · rw [after_relation hsource htarget, hvalid]
    exact ExactScalar.le_self _
  · rw [ExactScalar.le_iff, value_density_after hsource htarget h hvalid hjoined]
    exact le_add_of_nonneg_right (by positivity)

end Growth

end Graph

namespace IndexedGraph

variable {g : IndexedGraph S}

/-! ### Pairs of places -/

theorem mem_joinedPairs {v w : Nat} : (v, w) ∈ g.joinedPairs ↔
    v ≠ w ∧ ∃ (place : Nat) (e : Edge S), g.edges[place]? = some e ∧ e.source = v ∧
      e.target = w := by
  rw [joinedPairs, List.mem_eraseDups, List.mem_map]
  constructor
  · rintro ⟨e, he, hpair⟩
    obtain ⟨rfl, rfl⟩ := Prod.mk.inj hpair
    obtain ⟨he, hne⟩ := List.mem_filter.1 he
    obtain ⟨place, hplace⟩ := List.getElem?_of_mem he
    rw [Array.getElem?_toList] at hplace
    exact ⟨bne_iff_ne.1 hne, place, e, hplace, rfl, rfl⟩
  · rintro ⟨hne, place, e, he, rfl, rfl⟩
    have hmem : e ∈ g.edges.toList := Array.mem_toList_iff.2 (Array.mem_of_getElem? he)
    exact ⟨e, List.mem_filter.2 ⟨hmem, bne_iff_ne.2 hne⟩, rfl⟩

theorem mem_joinedPairs_toGraph {s t : String} : (s, t) ∈ g.toGraph.joinedPairs ↔
    s ≠ t ∧ ∃ r ∈ g.relations, r.source.id = s ∧ r.target.id = t := by
  rw [Graph.mem_joinedPairs, toGraph]
  simp [Relation.toRecord]

namespace Sound

variable (h : g.Sound)
include h

/-- **The pairs of places are those of identifiers**, by other names. -/
theorem perm_joinedPairs :
    (g.joinedPairs.map (Prod.map g.nameAt g.nameAt)).Perm g.toGraph.joinedPairs := by
  have hbounds : ∀ v w, (v, w) ∈ g.joinedPairs → v < g.nodes.size ∧ w < g.nodes.size := by
    intro v w hmem
    obtain ⟨-, place, e, he, rfl, rfl⟩ := mem_joinedPairs.1 hmem
    exact h.ends place e he
  have hnodup : (g.joinedPairs.map (Prod.map g.nameAt g.nameAt)).Nodup := by
    refine (Graph.nodup_eraseDups _).map_on ?_
    rintro ⟨v, w⟩ hmem ⟨v', w'⟩ hmem' heq
    obtain ⟨hv, hw⟩ := hbounds v w hmem
    obtain ⟨hv', hw'⟩ := hbounds v' w' hmem'
    obtain ⟨hs, ht⟩ := Prod.mk.inj heq
    rw [h.nameAt_inj hv hv' hs, h.nameAt_inj hw hw' ht]
  refine (List.perm_ext_iff_of_nodup hnodup g.toGraph.nodup_joinedPairs).2 ?_
  rintro ⟨s, t⟩
  rw [mem_joinedPairs_toGraph, List.mem_map]
  constructor
  · rintro ⟨⟨v, w⟩, hmem, heq⟩
    obtain ⟨rfl, rfl⟩ := Prod.mk.inj heq
    obtain ⟨hv, hw⟩ := hbounds v w hmem
    obtain ⟨hne, place, hedge⟩ := mem_joinedPairs.1 hmem
    obtain ⟨r, hr, hs, ht⟩ := (h.joins_iff hv hw).1 hedge
    exact ⟨fun heq => hne (h.nameAt_inj hv hw heq), r, h.mem_relations.2 ⟨place, hr⟩, hs, ht⟩
  · rintro ⟨hne, r, hr, rfl, rfl⟩
    obtain ⟨place, hplace⟩ := h.mem_relations.1 hr
    obtain ⟨e, s, t, he, hs, ht, rfl⟩ := relationAt?_eq_some_iff.1 hplace
    refine ⟨(e.source, e.target), mem_joinedPairs.2 ⟨fun heq => hne ?_, place, e, he, rfl, rfl⟩, ?_⟩
    · -- one node has one entity
      rw [heq, ht] at hs
      obtain rfl := Option.some.inj hs
      rfl
    · rw [Prod.map_apply, nameAt_of_entityAt? hs, nameAt_of_entityAt? ht]
      rfl

/-- The entities of a relation are in the graph. -/
theorem hasEntity_ends {r : Relation S} (hr : r ∈ g.relations) :
    g.hasEntity r.source.id = true ∧ g.hasEntity r.target.id = true := by
  obtain ⟨hs, ht⟩ := h.place?_ends hr
  exact ⟨Table.contains_iff.2 hs, Table.contains_iff.2 ht⟩

theorem density_toGraph [Scalar S] : g.toGraph.density = g.density := by
  have hpairs : g.joinedPairs.length = g.toGraph.joinedPairs.length := by
    rw [← h.perm_joinedPairs.length_eq, List.length_map]
  rw [Graph.density, density, hpairs, h.nodeCount_toGraph]

end Sound

/-! ### The density of a graph -/

section Shares

variable [Scalar S] [ExactScalar S]

open ExactScalar (value)

/-- **The density is the share of the ordered pairs of different entities that are joined.** -/
structure SharesPairs (g : IndexedGraph S) : Prop where
  inUnit : Scalar.InUnit g.density
  /-- It is one when there is a relation from every entity to every other. -/
  eq_one_iff : value g.density = 1 ↔ ∀ s t, g.hasEntity s = true → g.hasEntity t = true →
    s ≠ t → ∃ r ∈ g.relations, r.source.id = s ∧ r.target.id = t
  /-- It is zero when all relations are loops. -/
  eq_zero_iff : value g.density = 0 ↔ ∀ r ∈ g.relations, r.source.id = r.target.id
  /-- A loop at an entity of the graph does not change it. -/
  loop : ∀ r, g.hasEntity r.source.id = true → r.target.id = r.source.id →
    (g.after (.relation r)).density = g.density
  /-- Neither does a relation of any type between entities that are joined, which is one more
  relation between them or replaces one. -/
  parallel : ∀ r, ∀ old ∈ g.relations, old.source.id = r.source.id →
    old.target.id = r.target.id → (g.after (.relation r)).density = g.density
  /-- The first relation from one entity of the graph to another adds the share of one pair. -/
  first : ∀ r, g.hasEntity r.source.id = true → g.hasEntity r.target.id = true →
    r.validate = .ok () → r.source.id ≠ r.target.id →
    (∀ old ∈ g.relations, old.source.id = r.source.id → old.target.id ≠ r.target.id) →
      value (g.after (.relation r)).density =
        value g.density + 1 / (g.nodeCount * (g.nodeCount - 1) : Nat)
  /-- No relation between entities of the graph lowers it. -/
  mono : ∀ r, g.hasEntity r.source.id = true → g.hasEntity r.target.id = true →
    g.density ≤ (g.after (.relation r)).density

theorem Sound.sharesPairs (h : g.Sound) {done : List (Graph.Insertion S)}
    (htells : g.toGraph.Tells done) (hcount : 2 ≤ g.nodeCount) : g.SharesPairs := by
  have hcount' : 2 ≤ g.toGraph.nodeCount := h.nodeCount_toGraph.symm ▸ hcount
  have hrecords : (∀ r ∈ g.toGraph.records, r.source = r.target) ↔
      ∀ r ∈ g.relations, r.source.id = r.target.id := by
    simp [toGraph, Relation.toRecord]
  have hafter : ∀ call, (g.toGraph.after call).density = (g.after call).density := by
    intro call
    obtain ⟨hsound, hgraph⟩ := h.after call
    rw [← hgraph, hsound.density_toGraph]
  refine
    { inUnit := ?_
      eq_one_iff := ?_
      eq_zero_iff := ?_
      loop := ?_
      parallel := ?_
      first := ?_
      mono := ?_ }
  all_goals simp only [← h.density_toGraph, ← hafter, ← h.hasEntity_toGraph]
  · exact htells.inUnit_density hcount'
  · rw [htells.density_eq_one_iff hcount']
    constructor
    · intro hall s t hs ht hne
      exact (mem_joinedPairs_toGraph.1 (hall s t hs ht hne)).2
    · intro hall s t hs ht hne
      exact mem_joinedPairs_toGraph.2 ⟨hne, hall s t hs ht hne⟩
  · rw [Graph.density_eq_zero_iff hcount', hrecords]
  · intro r hsource hloop
    exact Graph.density_after_of_joined hsource (hloop.symm ▸ hsource) (Or.inl hloop.symm)
  · intro r old hold hs ht
    obtain ⟨hsource, htarget⟩ := h.hasEntity_ends hold
    rw [hs, ← h.hasEntity_toGraph] at hsource
    rw [ht, ← h.hasEntity_toGraph] at htarget
    refine Graph.density_after_of_joined hsource htarget (or_iff_not_imp_left.2 fun hne => ?_)
    exact mem_joinedPairs_toGraph.2 ⟨hne, old, hold, hs, ht⟩
  · intro r hsource htarget hvalid hne hnew
    rw [Graph.value_density_after hsource htarget hcount' hvalid, Graph.pairCount,
      h.nodeCount_toGraph]
    rintro (hloop | hjoined)
    · exact hne hloop
    · obtain ⟨-, old, hold, hs, ht⟩ := mem_joinedPairs_toGraph.1 hjoined
      exact hnew old hold hs ht
  · exact fun r hsource htarget => Graph.density_le_after hsource htarget hcount'

end Shares

/-- **Density is a share of the ordered pairs of different entities**, after any calls that grow a
graph to two entities, successful or not. The graph without indices has the same density. -/
theorem sharesPairs_grow [Scalar S] [ExactScalar S] (calls : List (Graph.Insertion S))
    (h : 2 ≤ (grow empty calls).nodeCount) : (grow empty calls).SharesPairs ∧
      (grow empty calls).density = (Graph.grow Graph.empty calls).density := by
  obtain ⟨hsound, hgraph⟩ := sound_grow calls
  have htells := Graph.tells_grow calls
  rw [← hgraph] at htells ⊢
  exact ⟨hsound.sharesPairs htells h, hsound.density_toGraph.symm⟩

/-- A loop, two types of relation from one entity to another, one back, and a relation that is
refused, as its confidence is too great. -/
def loopAndParallels : List (Graph.Insertion Fraction) :=
  let entity (id : String) : Entity Fraction := ⟨id, id, "concept", .empty⟩
  let edge (source kind target : String) (confidence : Fraction) : Graph.Insertion Fraction :=
    .relation ⟨entity source, entity target, kind, confidence, .empty, none⟩
  [edge "A" "causes" "A" 1.0, edge "A" "causes" "B" 0.5, edge "A" "part_of" "B" 0.5,
    edge "B" "causes" "A" 1.0, edge "B" "causes" "C" 1.5, .entity (entity "C")]

/-- Two of the six pairs of three entities are joined. -/
theorem sharesPairs_grow_loopAndParallels :
    (grow empty loopAndParallels).SharesPairs ∧
      (grow empty loopAndParallels).nodeCount = 3 ∧ (grow empty loopAndParallels).edgeCount = 4 ∧
      (grow empty loopAndParallels).density = ⟨1 / 3⟩ := by
  have hcount : 2 ≤ (grow empty loopAndParallels).nodeCount := by decide +kernel
  exact ⟨(sharesPairs_grow loopAndParallels hcount).1, by decide +kernel, by decide +kernel,
    by decide +kernel⟩

end IndexedGraph

end GraphReasoner
