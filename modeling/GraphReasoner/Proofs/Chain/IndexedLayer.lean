import GraphReasoner.Chain.IndexedLayer
import GraphReasoner.Proofs.Chain.Filling

/-!
# The indices of a layer follow its pairs

A layer with indices says nothing that the plain layer does not. Its indices are tied to its edges
by `GraphReasoner.IndexedLayer.Sound`: a place belongs to one identifier, the edges that leave a
node are listed there, and no two edges join the same nodes. That the last holds of a new layer is
known once the plain layer has grown in the same way
(`GraphReasoner.IndexedLayer.Sound.insert`), because there a pair never comes up twice.

Hence a search through the places finds the paths of the plain layer, in the same order, and each
step of a path has its payload when it is looked up again
(`GraphReasoner.IndexedLayer.Sound.paths_eq`): no path is left out.
-/

namespace GraphReasoner

open IndexedGraph (placesOf placesOf_push placesOf_modify mem_placesOf)

namespace IndexedLayer

variable {P : Type}

/-! ### The invariant -/

/-- **The indices follow the edges**: the node of an identifier is the one that has it, the edges
listed at a node are all those that leave it, and no pair comes up twice. -/
structure Sound (layer : IndexedLayer P) : Prop where
  place : ∀ id place,
    layer.place? id = some place ↔ layer.nodes[place]?.map Node.id = some id
  ends : ∀ (place : Nat) (e : Edge P), layer.edges[place]? = some e →
    e.source < layer.nodes.size ∧ e.target < layer.nodes.size
  leaving : ∀ place,
    layer.leavingAt place = (placesOf layer.edges fun e => e.source == place).reverse
  nodup_pairs : (layer.toLayer.links.map Prod.fst).Nodup

theorem sound_empty : (empty : IndexedLayer P).Sound where
  place := by simp [place?, empty, Table.get?]
  ends := by simp [empty]
  leaving _ := rfl
  nodup_pairs := List.nodup_nil

variable {layer : IndexedLayer P}

theorem getElem?_links (layer : IndexedLayer P) (place : Nat) :
    layer.toLayer.links[place]? = layer.edges[place]?.map fun e =>
      ((layer.nameAt e.source, layer.nameAt e.target), e.payload) := by
  rw [toLayer, List.getElem?_map, Array.getElem?_toList]

theorem getElem?_nodes (layer : IndexedLayer P) (place : Nat) :
    layer.toLayer.nodes[place]? = layer.nodes[place]?.map Node.id := by
  rw [toLayer, List.getElem?_map, Array.getElem?_toList]

namespace Sound

variable (h : layer.Sound)
include h

/-! ### Names of places -/

theorem nameAt_of_place? {id : String} {place : Nat} (hplace : layer.place? id = some place) :
    place < layer.nodes.size ∧ layer.nameAt place = id := by
  have hid := (h.place id place).1 hplace
  obtain ⟨node, hnode, -⟩ := Option.map_eq_some_iff.1 hid
  refine ⟨(Array.getElem?_eq_some_iff.1 hnode).1, ?_⟩
  rw [nameAt, hid, Option.getD_some]

theorem place?_nameAt {place : Nat} (hplace : place < layer.nodes.size) :
    layer.place? (layer.nameAt place) = some place := by
  rw [h.place, nameAt, Array.getElem?_eq_getElem hplace]
  rfl

theorem nameAt_inj {u v : Nat} (hu : u < layer.nodes.size) (hv : v < layer.nodes.size)
    (heq : layer.nameAt u = layer.nameAt v) : u = v :=
  Option.some.inj (by rw [← h.place?_nameAt hu, heq, h.place?_nameAt hv])

theorem mem_nodes_iff {id : String} :
    id ∈ layer.toLayer.nodes ↔ ∃ place, layer.place? id = some place := by
  simp only [List.mem_iff_getElem?, getElem?_nodes, h.place]

/-! ### Edges and payloads -/

/-- **The edge between two nodes is found exactly when it is there.** -/
theorem joining?_eq_some_iff {source target place : Nat} :
    layer.joining? source target = some place ↔
      ∃ e, layer.edges[place]? = some e ∧ e.source = source ∧ e.target = target := by
  have hmem : ∀ other, other ∈ layer.leavingAt source ∧
      (layer.edges[other]?.any fun e => e.target == target) = true ↔
        ∃ e, layer.edges[other]? = some e ∧ e.source = source ∧ e.target = target := by
    intro other
    rw [h.leaving, List.mem_reverse, mem_placesOf]
    rcases layer.edges[other]? with _ | e
    · simp
    · simp
  have hfound : ∀ other, layer.joining? source target = some other →
      ∃ e, layer.edges[other]? = some e ∧ e.source = source ∧ e.target = target :=
    fun other hfind => (hmem other).1 ⟨List.mem_of_find?_eq_some hfind, by
      simpa using List.find?_some hfind⟩
  refine ⟨hfound place, ?_⟩
  rintro ⟨e, he, hends⟩
  obtain ⟨hin, htarget⟩ := (hmem place).2 ⟨e, he, hends⟩
  rcases hfind : layer.joining? source target with _ | other
  · exact absurd htarget (List.find?_eq_none.1 hfind place hin)
  · -- whatever is found joins the same nodes, so it is the same edge
    obtain ⟨f, hf, hends'⟩ := hfound other hfind
    have hpair : ∀ {p : Nat} {e : Edge P}, layer.edges[p]? = some e →
        e.source = source ∧ e.target = target → (layer.toLayer.links.map Prod.fst)[p]? =
          some (layer.nameAt source, layer.nameAt target) := by
      rintro p e he ⟨rfl, rfl⟩
      rw [List.getElem?_map, getElem?_links, he]
      rfl
    have hlt := (List.getElem?_eq_some_iff.1 (hpair hf hends')).1
    rw [(List.getElem?_inj hlt h.nodup_pairs).1 ((hpair hf hends').trans (hpair he hends).symm)]

theorem payloadAt?_eq_some_iff {source target : Nat} {payload : P} :
    layer.payloadAt? source target = some payload ↔
      ∃ place : Nat, layer.edges[place]? = some ⟨source, target, payload⟩ := by
  simp only [payloadAt?, Option.bind_eq_some_iff, h.joining?_eq_some_iff, Option.map_eq_some_iff]
  constructor
  · rintro ⟨place, ⟨e, he, rfl, rfl⟩, e', he', rfl⟩
    obtain rfl := Option.some.inj (he.symm.trans he')
    exact ⟨place, he⟩
  · rintro ⟨place, he⟩
    exact ⟨place, ⟨_, he, rfl, rfl⟩, _, he, rfl⟩

/-- **A pair has the payload that it has in the plain layer.** -/
theorem payload?_eq (source target : String) :
    layer.payload? source target = layer.toLayer.payload? source target := by
  refine Option.ext fun payload => ?_
  have hlink : layer.toLayer.payload? source target = some payload ↔
      ∃ place : Nat, layer.toLayer.links[place]? = some ((source, target), payload) := by
    rw [← List.mem_iff_getElem?]
    refine ⟨Layer.mem_of_payload?, fun hin => ?_⟩
    rw [Layer.payload?, Graph.find?_of_mem h.nodup_pairs hin]
    rfl
  rw [hlink]
  simp only [payload?, Option.bind_eq_bind, Option.bind_eq_some_iff, h.payloadAt?_eq_some_iff,
    getElem?_links, Option.map_eq_some_iff, Prod.mk.injEq]
  constructor
  · rintro ⟨s, hs, t, ht, place, he⟩
    exact ⟨place, _, he, ⟨(h.nameAt_of_place? hs).2, (h.nameAt_of_place? ht).2⟩, rfl⟩
  · rintro ⟨place, e, he, ⟨rfl, rfl⟩, rfl⟩
    obtain ⟨hs, ht⟩ := h.ends place e he
    exact ⟨e.source, h.place?_nameAt hs, e.target, h.place?_nameAt ht, place, he⟩

end Sound

/-! ### Adding nodes -/

theorem leavingAt_addNode (layer : IndexedLayer P) (id : String) (place : Nat) :
    (layer.addNode id).leavingAt place = layer.leavingAt place := by
  rw [leavingAt, leavingAt, addNode, Array.getElem?_push]
  split
  · rename_i heq
    rw [heq, Array.getElem?_eq_none (Nat.le_refl _)]
    rfl
  · rfl

/-- Only the names of the nodes at the ends of an edge matter for its link. -/
theorem Sound.links_congr (h : layer.Sound) {other : IndexedLayer P}
    (hedges : other.edges = layer.edges)
    (hname : ∀ place < layer.nodes.size, other.nameAt place = layer.nameAt place) :
    other.toLayer.links = layer.toLayer.links := by
  refine List.ext_getElem? fun place => ?_
  rw [getElem?_links, getElem?_links, hedges]
  rcases he : layer.edges[place]? with _ | e
  · rfl
  · obtain ⟨hs, ht⟩ := h.ends place e he
    rw [Option.map_some, Option.map_some, hname _ hs, hname _ ht]

theorem Sound.links_addNode (h : layer.Sound) (id : String) :
    (layer.addNode id).toLayer.links = layer.toLayer.links :=
  h.links_congr rfl fun place hplace => by
    rw [nameAt, nameAt, addNode, Array.getElem?_push, if_neg (Nat.ne_of_lt hplace)]

/-- **A node for a new identifier** keeps the indices sound. -/
theorem Sound.addNode (h : layer.Sound) {id : String} (hnew : layer.place? id = none) :
    (layer.addNode id).Sound where
  place other place := by
    have hget : (layer.addNode id).place? other =
        if id = other then some layer.nodes.size else layer.place? other :=
      Table.get?_insert layer.places id other layer.nodes.size
    rw [hget, IndexedLayer.addNode, Array.getElem?_push]
    by_cases hid : id = other
    · subst hid
      by_cases hplace : place = layer.nodes.size
      · simp [hplace]
      · -- no older node has the identifier
        rw [if_pos rfl, if_neg hplace, ← h.place, hnew]
        simp [Ne.symm hplace]
    · rw [if_neg hid, h.place]
      by_cases hplace : place = layer.nodes.size
      · rw [if_pos hplace, hplace, Array.getElem?_eq_none (Nat.le_refl _)]
        simp [hid]
      · rw [if_neg hplace]
  ends place e he := by
    obtain ⟨hs, ht⟩ := h.ends place e he
    have hsize : (layer.addNode id).nodes.size = layer.nodes.size + 1 := Array.size_push _
    omega
  leaving place := (leavingAt_addNode layer id place).trans (h.leaving place)
  nodup_pairs := by
    rw [h.links_addNode]
    exact h.nodup_pairs

/-- **A node is ensured**: the identifier is listed as in the plain layer, and the node found. -/
theorem Sound.ensure (h : layer.Sound) (id : String) :
    (layer.ensure id).1.Sound ∧
      (layer.ensure id).1.toLayer =
        { layer.toLayer with nodes := Layer.addNode layer.toLayer.nodes id } ∧
      (layer.ensure id).1.place? id = some (layer.ensure id).2 ∧
      ∀ other place, layer.place? other = some place →
        (layer.ensure id).1.place? other = some place := by
  rw [IndexedLayer.ensure, Layer.addNode]
  rcases hplace : layer.place? id with _ | place
  · have hnew : ¬layer.toLayer.nodes.contains id = true := by
      rw [List.contains_iff_mem, h.mem_nodes_iff, hplace]
      simp
    have hget : ∀ other, (layer.addNode id).place? other =
        if id = other then some layer.nodes.size else layer.place? other := fun other =>
      Table.get?_insert layer.places id other layer.nodes.size
    refine ⟨h.addNode hplace, ?_, ?_, fun other place hother => ?_⟩
    · have hnodes : (layer.addNode id).toLayer.nodes = layer.toLayer.nodes ++ [id] := by
        simp [toLayer, IndexedLayer.addNode]
      rw [if_neg hnew]
      exact congrArg₂ Layer.mk hnodes (h.links_addNode id)
    · rw [hget, if_pos rfl]
    · rw [hget, if_neg fun heq => ?_]
      · exact hother
      · rw [← heq, hplace] at hother
        cases hother
  · have hold : layer.toLayer.nodes.contains id = true := by
      rw [List.contains_iff_mem, h.mem_nodes_iff]
      exact ⟨place, hplace⟩
    exact ⟨h, by rw [if_pos hold], hplace, fun _ _ hother => hother⟩

/-! ### Adding edges -/

section Edges

variable {e : Edge P}

/-- The node at a place has the same identifier after an edge was added. -/
theorem map_id_addEdge (layer : IndexedLayer P) (e : Edge P) (place : Nat) :
    (layer.addEdge e).nodes[place]?.map Node.id = layer.nodes[place]?.map Node.id := by
  rw [addEdge, Array.getElem?_modify]
  split
  · rw [Option.map_map]
    rfl
  · rfl

theorem leavingAt_addEdge (hsource : e.source < layer.nodes.size) (place : Nat) :
    (layer.addEdge e).leavingAt place =
      if e.source = place then layer.edges.size :: layer.leavingAt place
      else layer.leavingAt place := by
  rw [leavingAt, leavingAt, addEdge, Array.getElem?_modify]
  split
  · rename_i heq
    rw [← heq, Array.getElem?_eq_getElem hsource]
    rfl
  · rfl

theorem nodes_addEdge (layer : IndexedLayer P) (e : Edge P) :
    (layer.addEdge e).toLayer.nodes = layer.toLayer.nodes := by
  refine List.ext_getElem? fun place => ?_
  rw [getElem?_nodes, getElem?_nodes, map_id_addEdge]

theorem nameAt_addEdge (layer : IndexedLayer P) (e : Edge P) (place : Nat) :
    (layer.addEdge e).nameAt place = layer.nameAt place := by
  rw [nameAt, nameAt, map_id_addEdge]

/-- A new edge brings its link, which comes last. -/
theorem links_addEdge (layer : IndexedLayer P) (e : Edge P) :
    (layer.addEdge e).toLayer.links =
      layer.toLayer.links ++ [((layer.nameAt e.source, layer.nameAt e.target), e.payload)] := by
  have hedges : (layer.addEdge e).edges = layer.edges.push e := rfl
  simp only [toLayer, nameAt_addEdge, hedges, Array.toList_push, List.map_append, List.map_cons,
    List.map_nil]

/-- What is left to know of a layer that grew by an edge: its pairs. -/
theorem Sound.addEdge (h : layer.Sound) (hsource : e.source < layer.nodes.size)
    (htarget : e.target < layer.nodes.size)
    (hpairs : ((layer.addEdge e).toLayer.links.map Prod.fst).Nodup) : (layer.addEdge e).Sound where
  place id place := by
    rw [map_id_addEdge]
    exact h.place id place
  ends place edge hedge := by
    have hsize : (layer.addEdge e).nodes.size = layer.nodes.size := Array.size_modify
    have hpush : (layer.edges.push e)[place]? = some edge := hedge
    rw [Array.getElem?_push] at hpush
    rw [hsize]
    split at hpush
    · obtain rfl := Option.some.inj hpush
      exact ⟨hsource, htarget⟩
    · exact h.ends place edge hpush
  leaving place := by
    have hedges : (layer.addEdge e).edges = layer.edges.push e := rfl
    rw [leavingAt_addEdge hsource, hedges, placesOf_push, h.leaving]
    by_cases hs : e.source = place <;> simp [hs]
  nodup_pairs := hpairs

/-- **An edge that gets another payload** gives it to its link, in the same place. -/
theorem links_setPayload {place : Nat} {old : Edge P} (hold : layer.edges[place]? = some old)
    (payload : P) : (layer.setPayload place payload).toLayer.links =
      layer.toLayer.links.set place
        ((layer.nameAt old.source, layer.nameAt old.target), payload) := by
  have hname : ∀ p, (layer.setPayload place payload).nameAt p = layer.nameAt p := fun _ => rfl
  refine List.ext_getElem? fun p => ?_
  rw [List.getElem?_set, getElem?_links, getElem?_links, setPayload, Array.getElem?_modify]
  split
  · rename_i heq
    subst heq
    rw [hold, if_pos (by simpa [toLayer] using (Array.getElem?_eq_some_iff.1 hold).1)]
    rfl
  · rfl

/-- **An edge that gets another payload** keeps the indices sound: they speak only of its nodes. -/
theorem Sound.setPayload (h : layer.Sound) {place : Nat} {old : Edge P}
    (hold : layer.edges[place]? = some old) (payload : P) :
    (layer.setPayload place payload).Sound where
  place := h.place
  ends p e he := by
    rw [IndexedLayer.setPayload, Array.getElem?_modify] at he
    split at he
    · obtain ⟨e', he', rfl⟩ := Option.map_eq_some_iff.1 he
      exact h.ends p e' he'
    · exact h.ends p e he
  leaving node := by
    have hsame : placesOf (layer.setPayload place payload).edges (fun e => e.source == node) =
        placesOf layer.edges fun e => e.source == node := placesOf_modify fun _ _ => rfl
    rw [hsame]
    exact h.leaving node
  nodup_pairs := by
    have hpair : (layer.toLayer.links.map Prod.fst)[place]? =
        some (layer.nameAt old.source, layer.nameAt old.target) := by
      rw [List.getElem?_map, getElem?_links, hold]
      rfl
    obtain ⟨hlt, hpair⟩ := List.getElem?_eq_some_iff.1 hpair
    rw [links_setPayload hold, List.map_set, ← hpair, List.set_getElem_self]
    exact h.nodup_pairs

/-- **Putting an edge** puts its link in the plain layer, and answers what the pair had there. -/
theorem Sound.putEdge (h : layer.Sound) {source target : String}
    (hs : layer.place? source = some e.source) (ht : layer.place? target = some e.target) :
    (layer.putEdge e).2.Sound ∧
      (layer.putEdge e).2.toLayer = { layer.toLayer with
        links := Layer.putLink layer.toLayer.links (source, target) e.payload } ∧
      (layer.putEdge e).1 = layer.toLayer.payload? source target := by
  obtain ⟨hslt, hsource⟩ := h.nameAt_of_place? hs
  obtain ⟨htlt, htarget⟩ := h.nameAt_of_place? ht
  have hanswer : layer.toLayer.payload? source target =
      (layer.joining? e.source e.target).bind fun place => layer.edges[place]?.map Edge.payload := by
    rw [← h.payload?_eq, payload?, hs, ht]
    rfl
  rw [IndexedLayer.putEdge, hanswer]
  rcases hjoining : layer.joining? e.source e.target with _ | place
  · have hnew : (source, target) ∉ layer.toLayer.links.map Prod.fst := fun hin => by
      obtain ⟨link, hlink, hpair⟩ := List.mem_map.1 hin
      obtain ⟨payload, hpayload⟩ := Layer.exists_payload?_iff.2 ⟨link, hlink, hpair⟩
      rw [hanswer, hjoining] at hpayload
      cases hpayload
    have hlinks : (layer.addEdge e).toLayer.links =
        Layer.putLink layer.toLayer.links (source, target) e.payload := by
      rw [links_addEdge, hsource, htarget, Layer.putLink_eq_append hnew]
    refine ⟨h.addEdge hslt htlt ?_, congrArg₂ Layer.mk (nodes_addEdge layer e) hlinks, rfl⟩
    rw [hlinks, Layer.map_fst_putLink, if_neg hnew, List.nodup_append_comm]
    exact List.nodup_cons.2 ⟨hnew, h.nodup_pairs⟩
  · obtain ⟨old, hold, hends⟩ := h.joining?_eq_some_iff.1 hjoining
    have hlink : layer.toLayer.links[place]? = some ((source, target), old.payload) := by
      rw [getElem?_links, hold, Option.map_some, hends.1, hends.2, hsource, htarget]
    have hlinks : (layer.setPayload place e.payload).toLayer.links =
        Layer.putLink layer.toLayer.links (source, target) e.payload := by
      rw [links_setPayload hold, hends.1, hends.2, hsource, htarget,
        Layer.putLink_eq_set h.nodup_pairs hlink]
    exact ⟨h.setPayload hold e.payload, congrArg (Layer.mk layer.toLayer.nodes) hlinks, rfl⟩

end Edges

/-- **A layer with indices grows as the plain one**, and answers what the plain one answers. -/
theorem Sound.insert (h : layer.Sound) (source target : String) (payload : P) :
    (layer.insert source target payload).2.Sound ∧
      (layer.insert source target payload).2.toLayer =
        (layer.toLayer.insert source target payload).2 ∧
      (layer.insert source target payload).1 = layer.toLayer.payload? source target := by
  obtain ⟨hsound₁, hlayer₁, hs, -⟩ := h.ensure source
  obtain ⟨hsound₂, hlayer₂, ht, hkept⟩ := hsound₁.ensure target
  obtain ⟨hsound, hlayer, hanswer⟩ := hsound₂.putEdge (e := ⟨_, _, payload⟩) (hkept _ _ hs) ht
  refine ⟨hsound, hlayer.trans ?_, hanswer.trans ?_⟩
  · rw [hlayer₂, hlayer₁]
    rfl
  · rw [hlayer₂, hlayer₁]
    rfl

/-! ### Paths -/

namespace Sound

variable {made : P → Prop} (h : layer.Sound)
include h

theorem mem_adjacent_iff {u v : Nat} :
    v ∈ layer.adjacent u ↔ ∃ payload, layer.payloadAt? u v = some payload := by
  simp only [adjacent, h.leaving, List.mem_filterMap, List.mem_reverse, mem_placesOf,
    Option.map_eq_some_iff, beq_iff_eq, h.payloadAt?_eq_some_iff]
  constructor
  · rintro ⟨place, ⟨e, he, rfl⟩, e', he', rfl⟩
    obtain rfl := Option.some.inj (he.symm.trans he')
    exact ⟨e.payload, place, he⟩
  · rintro ⟨payload, place, he⟩
    exact ⟨place, ⟨_, he, rfl⟩, _, he, rfl⟩

theorem lt_of_mem_adjacent {u v : Nat} (hv : v ∈ layer.adjacent u) :
    u < layer.nodes.size ∧ v < layer.nodes.size := by
  obtain ⟨payload, hpayload⟩ := h.mem_adjacent_iff.1 hv
  obtain ⟨place, he⟩ := h.payloadAt?_eq_some_iff.1 hpayload
  exact h.ends place _ he

/-- A step between two nodes has the payload of their pair. -/
theorem payloadAt?_eq {u v : Nat} (hu : u < layer.nodes.size) (hv : v < layer.nodes.size) :
    layer.payloadAt? u v = layer.toLayer.payload? (layer.nameAt u) (layer.nameAt v) := by
  rw [← h.payload?_eq, payload?, h.place?_nameAt hu, h.place?_nameAt hv]
  rfl

/-- **The nodes that come next are named as in the plain layer**, in the same order. -/
theorem map_nameAt_distinct (hfilled : layer.toLayer.FilledWith made) {u : Nat}
    (hu : u < layer.nodes.size) :
    (Path.distinct (layer.adjacent u)).map layer.nameAt =
      layer.toLayer.next (layer.nameAt u) := by
  have hnodes : layer.toLayer.nodes = (List.range layer.nodes.size).map layer.nameAt :=
    List.ext_getElem? fun place => by
      rw [getElem?_nodes, List.getElem?_map]
      rcases hplace : layer.nodes[place]? with _ | node
      · have hge : layer.nodes.size ≤ place := Array.getElem?_eq_none_iff.1 hplace
        rw [List.getElem?_eq_none (by rwa [List.length_range])]
        rfl
      · have hlt := (Array.getElem?_eq_some_iff.1 hplace).1
        rw [List.getElem?_range hlt, Option.map_some, Option.map_some, nameAt, hplace]
        rfl
  have hrange : Path.distinct (layer.adjacent u) =
      (List.range layer.nodes.size).filter fun v => decide (v ∈ layer.adjacent u) := by
    refine (Path.pairwise_distinct _).eq_of_mem_iff (List.pairwise_lt_range.filter _) fun v => ?_
    rw [Path.mem_distinct, List.mem_filter, List.mem_range, decide_eq_true_iff]
    exact ⟨fun hv => ⟨(h.lt_of_mem_adjacent hv).2, hv⟩, And.right⟩
  have hnext : layer.toLayer.next (layer.nameAt u) =
      layer.toLayer.nodes.filter fun id => decide (id ∈ layer.toLayer.next (layer.nameAt u)) :=
    List.filter_congr fun id hid => by
      rw [Bool.eq_iff_iff, decide_eq_true_iff, Layer.next, List.mem_filter, and_iff_right hid]
  rw [hrange, hnext, hnodes, List.filter_map]
  refine congrArg (List.map layer.nameAt) (List.filter_congr fun v hv => ?_)
  rw [Function.comp_apply, Bool.eq_iff_iff, decide_eq_true_iff, decide_eq_true_iff,
    hfilled.mem_next_iff, h.mem_adjacent_iff, h.payloadAt?_eq hu (List.mem_range.1 hv)]

/-- A path that is found has only nodes of the layer. -/
theorem lt_of_mem_search {source target hops : Nat} {path : List Nat} {v : Nat}
    (hsource : source < layer.nodes.size)
    (hpath : path ∈ Path.search layer.adjacent source target hops) (hv : v ∈ path) :
    v < layer.nodes.size := by
  obtain ⟨hhead, -, -, hsteps, -⟩ := Path.mem_search_iff.1 hpath
  obtain ⟨way, rfl⟩ := List.head?_eq_some_iff.1 hhead
  rcases List.mem_cons.1 hv with rfl | hway
  · exact hsource
  · obtain ⟨u, -, hstep⟩ := Path.exists_step_to source hway
    exact (h.lt_of_mem_adjacent (hsteps (u, v) hstep)).2

/-- The payloads along a list of nodes are those along their names. -/
theorem mapM_payloadAt? {path : List Nat} (hpath : ∀ v ∈ path, v < layer.nodes.size) :
    (Path.pairs path).mapM (fun (u, v) => layer.payloadAt? u v) =
      layer.toLayer.along? (path.map layer.nameAt) := by
  rw [Layer.along?, Path.pairs_map, List.mapM_map]
  refine mapM_congr fun step hstep => ?_
  obtain ⟨hu, hv⟩ := Path.mem_of_mem_pairs hstep
  exact h.payloadAt?_eq (hpath _ hu) (hpath _ hv)

/-- **The payloads along the paths** are those of the plain layer, in the same order. -/
theorem paths_eq (hfilled : layer.toLayer.FilledWith made) (source target : String) (hops : Nat) :
    layer.paths source target hops = layer.toLayer.paths source target hops := by
  have hlisted : ∀ id, layer.toLayer.nodes.contains id = (layer.place? id).isSome := fun id => by
    rw [Bool.eq_iff_iff, List.contains_iff_mem, h.mem_nodes_iff, Option.isSome_iff_exists]
  rw [paths, Layer.paths, hlisted, hlisted]
  rcases hsource : layer.place? source with _ | s
  · rfl
  rcases htarget : layer.place? target with _ | t
  · rfl
  obtain ⟨hs, rfl⟩ := h.nameAt_of_place? hsource
  obtain ⟨ht, rfl⟩ := h.nameAt_of_place? htarget
  have hnames : Path.simplePaths layer.toLayer.next (layer.nameAt s) (layer.nameAt t) hops =
      (Path.search layer.adjacent s t hops).map (List.map layer.nameAt) := by
    rw [Path.search_eq]
    exact (Path.map_simplePaths
      (fun v _ w hw => (h.lt_of_mem_adjacent (Path.mem_distinct.1 hw)).2)
      (fun _ _ => h.nameAt_inj) (fun _ => h.map_nameAt_distinct hfilled) hs ht hops).symm
  change (Path.search layer.adjacent s t hops).filterMap _ =
    (Path.simplePaths layer.toLayer.next (layer.nameAt s) (layer.nameAt t) hops).filterMap _
  rw [hnames, List.filterMap_map]
  exact List.filterMap_congr fun path hpath =>
    h.mapM_payloadAt? fun v hv => h.lt_of_mem_search hs hpath hv

end Sound

end IndexedLayer

/-! ### Filling a layer -/

section Fill

variable {P : Type}

/-- The layer with indices in which some pairs were given payloads, one after another. -/
def IndexedLayer.fill (calls : List ((String × String) × P)) : IndexedLayer P :=
  calls.foldl (fun layer call => (layer.insert call.1.1 call.1.2 call.2).2) .empty

/-- **A layer with indices is filled as the plain one.** -/
theorem IndexedLayer.sound_fill (calls : List ((String × String) × P)) :
    (fill calls).Sound ∧ (fill calls).toLayer = Layer.fill calls := by
  induction calls using List.reverseRecOn with
  | nil => exact ⟨sound_empty, rfl⟩
  | append_singleton calls call ih =>
    obtain ⟨hsound, hlayer, -⟩ := ih.1.insert call.1.1 call.1.2 call.2
    rw [Layer.fill_concat, ← ih.2, ← hlayer]
    rw [fill, List.foldl_concat]
    exact ⟨hsound, rfl⟩

/-- **A layer is a map from pairs, with faithful paths.** Whatever pairs were given payloads, in
whatever order and however often:

* a pair has the payload that it was given last, and none when it was given none;
* giving a pair one more payload answers the payload that it had;
* the size is the number of different pairs;
* along the paths from a source to a target come the chains of certain lists of identifiers, one
  chain for each, and no list is there twice. They are all the lists that begin with the source,
  end in the target, repeat no identifier and take at least one and at most `hops` steps, each of
  them a pair that was given a payload. The chain of a list has the payload of each of its steps,
  in order. -/
theorem IndexedLayer.fill_exact (calls : List ((String × String) × P)) :
    (∀ source target, (fill calls).payload? source target =
      Layer.latest? calls (source, target)) ∧
    (∀ source target payload, ((fill calls).insert source target payload).1 =
      Layer.latest? calls (source, target)) ∧
    (fill calls).size = (calls.map Prod.fst).eraseDups.length ∧
    ∀ source target hops, ∃ ways : List (List String), ways.Nodup ∧
      (∀ way, way ∈ ways ↔ way.head? = some source ∧ way.getLast? = some target ∧ way.Nodup ∧
        (∀ step ∈ Path.pairs way, step ∈ calls.map Prod.fst) ∧
        1 ≤ (Path.pairs way).length ∧ (Path.pairs way).length ≤ hops) ∧
      List.Forall₂ (fun way chain =>
          List.Forall₂ (fun step payload => Layer.latest? calls step = some payload)
            (Path.pairs way) chain)
        ways ((fill calls).paths source target hops) := by
  obtain ⟨hsound, hlayer⟩ := sound_fill calls
  have hfilled : (fill calls).toLayer.FilledWith fun _ => True :=
    hlayer ▸ Layer.filledWith_fill calls
  refine ⟨fun source target => ?_, fun source target payload => ?_, ?_, fun source target hops => ?_⟩
  · rw [hsound.payload?_eq, hlayer, Layer.payload?_fill]
  · rw [(hsound.insert source target payload).2.2, hlayer, Layer.payload?_fill]
  · have hsize : (fill calls).size = (fill calls).toLayer.links.length := by
      rw [size, toLayer, List.length_map, Array.length_toList]
    rw [hsize, hlayer, ← Layer.map_fst_fill, List.length_map]
  · rw [hsound.paths_eq hfilled, hlayer]
    exact Layer.exists_ways_fill calls source target hops

end Fill

end GraphReasoner
