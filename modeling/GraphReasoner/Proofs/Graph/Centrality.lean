import GraphReasoner.Graph.Centrality
import GraphReasoner.Proofs.Exact
import GraphReasoner.Proofs.Graph.Views
import Mathlib.Algebra.BigOperators.Group.List.Basic
import Mathlib.Data.List.Sort

/-!
# Nodes are ranked by their degrees, and neighbors like the nodes

A ranking puts the greater score first and, of equal scores, the smaller identifier. When no
identifier repeats, this is a strict order (`GraphReasoner.Centrality.Before`), so the ranking of
some rows is the only arrangement of them that it admits. That settles the ranking of the neighbors
of a node, which is made in another way: the scores are looked up in a table, one neighbor after
the other, and then sorted. The neighbors in the order of the whole ranking are an arrangement of
the same rows, and admitted, so they are what the sort gives
(`GraphReasoner.Centrality.mergeSort_scored`).

The degrees of a node are the lengths of two lists of places. These are the places of the relations
that leave the node, and of those that enter it. Each relation leaves one node and enters one, so
that the degrees of either kind add up to the number of relations
(`GraphReasoner.Centrality.sum_map_countP`).

* `GraphReasoner.IndexedGraph.RanksByDegree` – what the ranking of a graph is;
* `GraphReasoner.IndexedGraph.ranksByDegree_grow` – every graph that grew has it.
-/

namespace GraphReasoner

/-! ### Rankings -/

namespace Centrality

open ExactScalar (value)

/-- What a node is ranked by. -/
def scored {S : Type} (c : Centrality S) : String × S :=
  (c.id, c.score)

section Ranking

variable {S : Type} [Scalar S] [ExactScalar S] {a b : String × S}

/-- One scored node comes before another: its score is greater, or the scores are equal and its
identifier is smaller. -/
def Before (a b : String × S) : Prop :=
  value b.2 < value a.2 ∨ value a.2 = value b.2 ∧ a.1 < b.1

theorem ranked_iff :
    ranked a b = true ↔ value b.2 < value a.2 ∨ value a.2 = value b.2 ∧ a.1 ≤ b.1 := by
  rw [ranked, Scalar.descending]
  simp only [ExactScalar.lt_iff]
  rcases lt_trichotomy (value a.2) (value b.2) with hlt | heq | hgt
  · rw [if_neg (not_lt.2 hlt.le), if_pos hlt]
    simp [hlt.ne, hlt.le]
  · simp [heq]
  · simp [hgt]

theorem ranked_trans {c : String × S} (hab : ranked a b = true) (hbc : ranked b c = true) :
    ranked a c = true := by
  rw [ranked_iff] at hab hbc ⊢
  rcases hab with hab | ⟨hab, hid⟩ <;> rcases hbc with hbc | ⟨hbc, hid'⟩
  · exact Or.inl (hbc.trans hab)
  · exact Or.inl (hbc ▸ hab)
  · exact Or.inl (hab ▸ hbc)
  · exact Or.inr ⟨hab.trans hbc, String.le_trans hid hid'⟩

theorem ranked_total (a b : String × S) : (ranked a b || ranked b a) = true := by
  rw [Bool.or_eq_true, ranked_iff, ranked_iff]
  rcases lt_trichotomy (value a.2) (value b.2) with hlt | heq | hgt
  · exact Or.inr (Or.inl hlt)
  · exact (String.le_total a.1 b.1).imp (fun h => Or.inr ⟨heq, h⟩) fun h => Or.inr ⟨heq.symm, h⟩
  · exact Or.inl (Or.inl hgt)

/-- Different identifiers leave no tie. -/
theorem before_of_ranked (h : ranked a b = true) (hne : a.1 ≠ b.1) : Before a b := by
  rcases ranked_iff.1 h with hscore | ⟨hscore, hid⟩
  · exact Or.inl hscore
  · exact Or.inr ⟨hscore, String.not_le.1 fun hge => hne (String.le_antisymm hid hge)⟩

/-- **Of two scored nodes at most one comes before the other.** -/
theorem Before.asymm (h : Before a b) : ¬Before b a := by
  rintro (hlt | ⟨heq, hid⟩) <;> rcases h with hlt' | ⟨heq', hid'⟩
  · exact lt_asymm hlt hlt'
  · exact hlt.ne heq'
  · exact hlt'.ne heq
  · exact String.lt_irrefl _ (String.lt_trans hid hid')

instance : Std.Irrefl (Before : String × S → String × S → Prop) where
  irrefl _ h := h.asymm h

instance : Std.Antisymm (Before : String × S → String × S → Prop) where
  antisymm _ _ h h' := absurd h' h.asymm

/-- **A ranking is strictly ordered**, when no identifier repeats. -/
theorem pairwise_before {α : Type} {f : α → String × S} {rows : List α}
    (h : (rows.map fun r => (f r).1).Nodup) :
    (rows.mergeSort fun r r' => ranked (f r) (f r')).Pairwise fun r r' =>
      Before (f r) (f r') := by
  have hsorted := @List.pairwise_mergeSort _ (fun r r' => ranked (f r) (f r'))
    (fun _ _ _ => ranked_trans) (fun r r' => ranked_total (f r) (f r')) rows
  have hperm := List.mergeSort_perm rows fun r r' => ranked (f r) (f r')
  have hids := List.pairwise_map.1 ((hperm.map fun r => (f r).1).nodup_iff.2 h)
  exact hsorted.imp₂ (fun _ _ => before_of_ranked) hids

/-- **Some of the ranked nodes are ranked like all of them**: their scores, looked up in the table
of all scores and sorted, are those of the ranking without the other nodes. -/
theorem mergeSort_scored {ranking : List (Centrality S)}
    (hstrict : ranking.Pairwise fun c c' => Before c.scored c'.scored)
    (hids : (ranking.map Centrality.id).Nodup) {names : List String} (hnames : names.Nodup)
    (hbound : ∀ name ∈ names, name ∈ ranking.map Centrality.id) :
    (names.map fun name =>
        (name, ((Table.ofList (ranking.map scored)).get? name).getD 0.0)).mergeSort ranked =
      (ranking.filter fun c => names.contains c.id).map scored := by
  have hscore : ∀ c ∈ ranking, (Table.ofList (ranking.map scored)).get? c.id = some c.score := by
    intro c hc
    refine Table.get?_ofList_of_mem ?_ (List.mem_map_of_mem (f := scored) hc)
    rwa [List.map_map]
  -- both sides are strictly ordered, so it is enough that they have the same members
  refine List.Pairwise.eq_of_mem_iff (r := Before) ?_ ?_ fun pair => ?_
  · refine pairwise_before (f := fun pair => pair) ?_
    rw [List.map_map]
    exact (List.map_id names).symm ▸ hnames
  · exact List.pairwise_map.2 (hstrict.sublist List.filter_sublist)
  · simp only [List.mem_mergeSort, List.mem_map, List.mem_filter, List.contains_iff_mem]
    constructor
    · rintro ⟨name, hname, rfl⟩
      obtain ⟨c, hc, rfl⟩ := List.mem_map.1 (hbound name hname)
      exact ⟨c, ⟨hc, hname⟩, by rw [hscore c hc]; rfl⟩
    · rintro ⟨c, ⟨hc, hname⟩, rfl⟩
      exact ⟨c.id, hname, by rw [hscore c hc]; rfl⟩

end Ranking

/-! ### Counting at the nodes -/

/-- **Each item is counted once**, at its label, when the labels are different. -/
theorem sum_map_countP {α : Type} {label : α → String} {labels : List String}
    (h : labels.Nodup) {items : List α} (hitems : ∀ a ∈ items, label a ∈ labels) :
    (labels.map fun l => items.countP fun a => label a == l).sum = items.length := by
  induction items with
  | nil => simp
  | cons a items ih =>
    obtain ⟨ha, hrest⟩ := List.forall_mem_cons.1 hitems
    -- the new item is counted at its own label, which is there once
    have hone : (labels.map fun l => if label a == l then 1 else 0).sum = 1 := by
      rw [List.sum_map_eq_nsmul_single (label a) _ fun l hne _ => if_neg (by simpa using hne.symm),
        h.count, if_pos ha, if_pos (beq_self_eq_true _)]
      rfl
    simp only [List.countP_cons, List.sum_map_add, ih hrest, hone, List.length_cons]

end Centrality

/-! ### The ranking of a graph -/

namespace IndexedGraph

open ExactScalar (value)

variable {S : Type} {g : IndexedGraph S}

/-- Identifiers are unique. -/
theorem Sound.nodup_ids (h : g.Sound) : (g.entities.map Entity.id).Nodup := by
  rw [map_id_entities]
  refine List.nodup_range.map_on fun v hv w hw heq => ?_
  exact h.nameAt_inj (List.mem_range.1 hv) (List.mem_range.1 hw) heq

theorem Sound.mem_ids_of_place? (h : g.Sound) {id : String} {place : Nat}
    (hplace : g.place? id = some place) : id ∈ g.entities.map Entity.id := by
  obtain ⟨hlt, rfl⟩ := h.nameAt_of_place? hplace
  rw [map_id_entities]
  exact List.mem_map_of_mem (List.mem_range.2 hlt)

/-- There are as many edges at a node as relations at its entity. -/
theorem Sound.length_placesOf (h : g.Sound) {node : Edge S → Nat}
    {entity : Relation S → Entity S}
    (hend : ∀ (place : Nat) (e : Edge S) (r : Relation S), g.edges[place]? = some e →
      g.relationAt? place = some r → g.entityAt? (node e) = some (entity r))
    {place : Nat} {bound : Entity S} (hbound : g.entityAt? place = some bound) :
    (placesOf g.edges fun e => node e == place).length =
      g.relations.countP fun r => (entity r).id == bound.id := by
  have hrelations := h.filterMap_placesOf (p := fun e => node e == place) fun _ _ _ he hr =>
    h.id_beq (hend _ _ _ he hr) (h.place?_of_entityAt? hbound)
  rw [List.countP_eq_length_filter, ← hrelations, List.length_filterMap_eq_countP,
    List.countP_eq_length.2]
  intro place hplace
  obtain ⟨e, he, -⟩ := mem_placesOf.1 hplace
  exact h.isSome_relationAt? (Array.getElem?_eq_some_iff.1 he).1

/-- A node is at some place. -/
theorem exists_place {node : Node S} (hnode : node ∈ g.nodes.toList) :
    ∃ place, g.entityAt? place = some node.entity ∧ g.leavingAt place = node.leaving ∧
      g.enteringAt place = node.entering := by
  obtain ⟨place, hplace⟩ := List.getElem?_of_mem hnode
  rw [Array.getElem?_toList] at hplace
  refine ⟨place, ?_, ?_, ?_⟩
  · rw [entityAt?, hplace, Option.map_some]
  · rw [leavingAt, hplace, Option.map_some, Option.getD_some]
  · rw [enteringAt, hplace, Option.map_some, Option.getD_some]

section Degrees

variable (h : g.Sound) {node : Node S} (hnode : node ∈ g.nodes.toList)
include h hnode

/-- **As many edges leave a node** as relations leave its entity. -/
theorem Sound.length_leaving :
    node.leaving.length = g.relations.countP fun r => r.source.id == node.entity.id := by
  obtain ⟨place, hentity, hleaving, -⟩ := exists_place hnode
  rw [← hleaving, h.leaving, List.length_reverse]
  exact h.length_placesOf (fun _ _ _ he hr => (h.relationAt?_ends he hr).1) hentity

/-- **As many edges enter a node** as relations enter its entity. -/
theorem Sound.length_entering :
    node.entering.length = g.relations.countP fun r => r.target.id == node.entity.id := by
  obtain ⟨place, hentity, -, hentering⟩ := exists_place hnode
  rw [← hentering, h.entering, List.length_reverse]
  exact h.length_placesOf (fun _ _ _ he hr => (h.relationAt?_ends he hr).2.1) hentity

/-- **The plain graph counts the same degrees.** -/
theorem Sound.degrees_toGraph [Scalar S] :
    g.toGraph.degrees node.entity.id = node.degrees g.nodes.size := by
  have hleaving : (g.toGraph.leaving node.entity.id).length = node.leaving.length := by
    rw [Graph.leaving, List.length_reverse, ← List.countP_eq_length_filter, toGraph,
      List.countP_map, h.length_leaving hnode]
    rfl
  have hentering : (g.toGraph.entering node.entity.id).length = node.entering.length := by
    rw [Graph.entering, List.length_reverse, ← List.countP_eq_length_filter, toGraph,
      List.countP_map, h.length_entering hnode]
    rfl
  rw [Graph.degrees, Node.degrees, hleaving, hentering, h.nodeCount_toGraph, h.nodeCount]

end Degrees

section Rows

variable [Scalar S]

theorem Sound.centrality_toGraph (h : g.Sound) : g.toGraph.centrality = g.centrality := by
  have hrows : (g.toGraph.entities.map fun e => g.toGraph.degrees e.id) =
      g.nodes.toList.map (Node.degrees g.nodes.size) := by
    rw [toGraph, entities, List.map_map]
    exact List.map_congr_left fun node hnode => h.degrees_toGraph hnode
  rw [Graph.centrality, centrality, hrows]

theorem mem_centrality {c : Centrality S} :
    c ∈ g.centrality ↔ ∃ node ∈ g.nodes.toList, node.degrees g.nodes.size = c := by
  rw [centrality, List.mem_mergeSort, List.mem_map]

/-- The rows are those of the entities, before they are ranked. -/
theorem map_id_degrees (count : Nat) :
    (g.nodes.toList.map (Node.degrees count)).map Centrality.id = g.entities.map Entity.id := by
  rw [entities, List.map_map, List.map_map]
  rfl

theorem perm_ids : (g.centrality.map Centrality.id).Perm (g.entities.map Entity.id) := by
  rw [← map_id_degrees g.nodes.size]
  exact (List.mergeSort_perm _ _).map Centrality.id

/-- **Degrees of one kind add up to the number of relations**, when they count the relations that
have the node at one end. -/
theorem Sound.sum_degrees (h : g.Sound) {degree : Centrality S → Nat}
    {entity : Relation S → Entity S}
    (hdegree : ∀ c ∈ g.centrality, degree c = g.relations.countP fun r => (entity r).id == c.id)
    (hbound : ∀ r ∈ g.relations, ∃ place, g.place? (entity r).id = some place) :
    (g.centrality.map degree).sum = g.edgeCount := by
  have hnodup : (g.centrality.map Centrality.id).Nodup := perm_ids.nodup_iff.2 h.nodup_ids
  have hcounts : g.centrality.map degree = (g.centrality.map Centrality.id).map fun id =>
      g.relations.countP fun r => (entity r).id == id := by
    rw [List.map_map]
    exact List.map_congr_left hdegree
  rw [hcounts, Centrality.sum_map_countP hnodup, h.length_relations, h.edgeCount]
  intro r hr
  obtain ⟨place, hplace⟩ := hbound r hr
  exact perm_ids.mem_iff.2 (h.mem_ids_of_place? hplace)

end Rows

section Ranking

variable [Scalar S] [ExactScalar S]

/-- **The nodes are ranked by their degrees**, each once, and the neighbors of a node like all
nodes. -/
structure RanksByDegree (g : IndexedGraph S) : Prop where
  /-- Every entity has one row, and there are no other rows. -/
  ids : (g.centrality.map Centrality.id).Perm (g.entities.map Entity.id)
  ids_nodup : (g.centrality.map Centrality.id).Nodup
  /-- A row comes before another when its score is greater, or equal and its identifier smaller. -/
  strict : g.centrality.Pairwise fun c c' =>
    value c'.score < value c.score ∨ value c.score = value c'.score ∧ c.id < c'.id
  inDegree : ∀ c ∈ g.centrality, c.inDegree = g.relations.countP fun r => r.target.id == c.id
  outDegree : ∀ c ∈ g.centrality, c.outDegree = g.relations.countP fun r => r.source.id == c.id
  score : ∀ c ∈ g.centrality, value c.score =
    if 1 < g.nodeCount then ((c.inDegree + c.outDegree : Nat) : ℝ) / (g.nodeCount - 1 : Nat) else 0
  /-- Every relation is counted at one node where it enters, and at one where it leaves. -/
  sum_inDegree : (g.centrality.map Centrality.inDegree).sum = g.edgeCount
  sum_outDegree : (g.centrality.map Centrality.outDegree).sum = g.edgeCount
  /-- The neighbors are ranked as in the whole ranking, with the scores they have there. -/
  centralNeighbors : ∀ id k, g.centralNeighbors id k =
    ((g.centrality.filter fun c => (g.neighbors id).contains c.id).map fun c =>
      (c.id, c.score)).take k

theorem Sound.ranksByDegree (h : g.Sound) : g.RanksByDegree := by
  have hnodup : (g.centrality.map Centrality.id).Nodup := perm_ids.nodup_iff.2 h.nodup_ids
  have hin : ∀ c ∈ g.centrality,
      c.inDegree = g.relations.countP fun r => r.target.id == c.id := by
    intro c hc
    obtain ⟨node, hnode, rfl⟩ := mem_centrality.1 hc
    exact h.length_entering hnode
  have hout : ∀ c ∈ g.centrality,
      c.outDegree = g.relations.countP fun r => r.source.id == c.id := by
    intro c hc
    obtain ⟨node, hnode, rfl⟩ := mem_centrality.1 hc
    exact h.length_leaving hnode
  have hstrict : g.centrality.Pairwise fun c c' => Centrality.Before c.scored c'.scored := by
    refine Centrality.pairwise_before (f := Centrality.scored) ?_
    have hids := h.nodup_ids
    rwa [← map_id_degrees g.nodes.size] at hids
  refine
    { ids := perm_ids
      ids_nodup := hnodup
      strict := hstrict
      inDegree := hin
      outDegree := hout
      score := fun c hc => ?_
      sum_inDegree := h.sum_degrees hin fun r hr => (h.place?_ends hr).2
      sum_outDegree := h.sum_degrees hout fun r hr => (h.place?_ends hr).1
      centralNeighbors := fun id k => ?_ }
  · obtain ⟨node, hnode, rfl⟩ := mem_centrality.1 hc
    rw [h.nodeCount, Node.degrees]
    split
    · rw [ExactScalar.value_div, ExactScalar.value_natCast, ExactScalar.value_natCast]
    · rw [ExactScalar.value_ofScientific]
      norm_num
  · rw [IndexedGraph.centralNeighbors]
    refine congrArg (List.take k) (Centrality.mergeSort_scored hstrict hnodup ?_ ?_)
    · rw [h.neighbors_eq]
      exact Graph.nodup_eraseDups _
    · intro name hname
      obtain ⟨r, hr, hends⟩ := h.mem_neighbors.1 hname
      obtain ⟨⟨s, hs⟩, t, ht⟩ := h.place?_ends hr
      refine perm_ids.mem_iff.2 ?_
      rcases hends with ⟨-, rfl⟩ | ⟨-, rfl⟩
      · exact h.mem_ids_of_place? ht
      · exact h.mem_ids_of_place? hs

end Ranking

/-- **Nodes are ranked by their degrees**, and the neighbors of a node like all nodes, after any
calls that grow a graph, successful or not. The graph without indices has the same rankings. -/
theorem ranksByDegree_grow [Scalar S] [ExactScalar S] (calls : List (Graph.Insertion S)) :
    (grow empty calls).RanksByDegree ∧
      (grow empty calls).centrality = (Graph.grow Graph.empty calls).centrality ∧
      ∀ id k, (grow empty calls).centralNeighbors id k =
        (Graph.grow Graph.empty calls).centralNeighbors id k := by
  obtain ⟨hsound, hgraph⟩ := sound_grow calls
  have hcentrality : (grow empty calls).centrality =
      (Graph.grow Graph.empty calls).centrality := by
    rw [← hgraph, hsound.centrality_toGraph]
  refine ⟨hsound.ranksByDegree, hcentrality, fun id k => ?_⟩
  rw [IndexedGraph.centralNeighbors, Graph.centralNeighbors, centralityTable,
    Graph.centralityTable, hcentrality, (views_grow calls).2.neighbors]

end IndexedGraph

end GraphReasoner
