import GraphReasoner.Graph.Indexed
import GraphReasoner.Proofs.Graph.History
import GraphReasoner.Proofs.Table

/-!
# The indices follow the edges

The indices of `GraphReasoner.IndexedGraph` are changed one at a time, and only when an edge is new.
What ties them to the edges is `GraphReasoner.IndexedGraph.Sound`: each index lists the places of
the edges it is for, all of them and in order, which is to say
`GraphReasoner.IndexedGraph.placesOf`. Adding a node does not change these lists, adding an edge
adds its place at the end of some, and giving an edge a new content changes none, as the content
does not include the two nodes and the type.

A sound graph does not keep more than the plain one. Each call that grows it grows the plain graph
in the same way, and is refused for the same reason
(`GraphReasoner.IndexedGraph.Sound.insert`).
-/

namespace GraphReasoner

namespace IndexedGraph

variable {S : Type}

/-! ### Places of edges -/

/-- The places of the edges with a property, oldest first. -/
def placesOf {E : Type} (edges : Array E) (p : E → Bool) : List Nat :=
  (List.range edges.size).filter fun place => edges[place]?.any p

section PlacesOf

variable {E : Type} {edges : Array E} {p : E → Bool}

theorem mem_placesOf {place : Nat} :
    place ∈ placesOf edges p ↔ ∃ e, edges[place]? = some e ∧ p e = true := by
  rw [placesOf, List.mem_filter, List.mem_range, Option.any_eq_true, and_iff_right_of_imp]
  rintro ⟨e, he, -⟩
  exact (Array.getElem?_eq_some_iff.1 he).1

theorem placesOf_sorted (edges : Array E) (p : E → Bool) :
    (placesOf edges p).Pairwise (· < ·) :=
  List.Pairwise.filter _ List.pairwise_lt_range

/-- A new edge comes last. -/
theorem placesOf_push (edges : Array E) (p : E → Bool) (e : E) :
    placesOf (edges.push e) p =
      if p e then placesOf edges p ++ [edges.size] else placesOf edges p := by
  have hold : (List.range edges.size).filter (fun place => (edges.push e)[place]?.any p) =
      placesOf edges p := by
    refine List.filter_congr fun place hplace => ?_
    rw [Array.getElem?_push, if_neg (Nat.ne_of_lt (List.mem_range.1 hplace))]
  rw [placesOf, Array.size_push, List.range_succ, List.filter_append, hold]
  by_cases h : p e <;> simp [h]

/-- An edge that keeps the property, or goes on lacking it, keeps its place in the list. -/
theorem placesOf_modify {place : Nat} {f : E → E}
    (h : ∀ e, edges[place]? = some e → p (f e) = p e) :
    placesOf (edges.modify place f) p = placesOf edges p := by
  rw [placesOf, Array.size_modify]
  refine List.filter_congr fun other _ => ?_
  rw [Array.getElem?_modify]
  split
  · rename_i heq
    subst heq
    rcases he : edges[place]? with _ | e
    · rfl
    · exact h e he
  · rfl

end PlacesOf

/-! ### The invariant -/

/-- The two nodes and the type of an edge, which it never changes. -/
def Edge.key (e : Edge S) : Nat × Nat × String :=
  (e.source, e.target, e.kind)

/-- **The indices follow the edges**: the node of an identifier is the one with the entity, every
list of places is the list of all edges that belong there, and no two edges of one type join the
same nodes. -/
structure Sound (g : IndexedGraph S) : Prop where
  place : ∀ id place,
    g.place? id = some place ↔ (g.entityAt? place).map Entity.id = some id
  ends : ∀ (place : Nat) (e : Edge S), g.edges[place]? = some e →
    e.source < g.nodes.size ∧ e.target < g.nodes.size
  leaving : ∀ place, g.leavingAt place = (placesOf g.edges fun e => e.source == place).reverse
  entering : ∀ place, g.enteringAt place = (placesOf g.edges fun e => e.target == place).reverse
  kindPlaces : ∀ kind, g.kindPlaces.get? kind =
    if (placesOf g.edges fun e => e.kind == kind) = [] then none
    else some (placesOf g.edges fun e => e.kind == kind)
  kinds_ordered : g.kindPlaces.Ordered
  distinct : ∀ (p q : Nat) (e f : Edge S), g.edges[p]? = some e → g.edges[q]? = some f →
    e.key = f.key → p = q
  nodeCount : g.nodeCount = g.nodes.size
  edgeCount : g.edgeCount = g.edges.size

theorem sound_empty : (empty : IndexedGraph S).Sound where
  place := by simp [place?, entityAt?, empty, Table.get?]
  ends := by simp [empty]
  leaving _ := rfl
  entering _ := rfl
  kindPlaces _ := rfl
  kinds_ordered := List.Pairwise.nil
  distinct := by simp [empty]
  nodeCount := rfl
  edgeCount := rfl

variable {g : IndexedGraph S}

namespace Sound

variable (h : g.Sound)
include h

/-- **The edge of one type between two nodes is found exactly when it is there.** -/
theorem joiningOf?_eq_some_iff {source target place : Nat} {kind : String} :
    g.joiningOf? source target kind = some place ↔
      ∃ e, g.edges[place]? = some e ∧ e.key = (source, target, kind) := by
  have hmem : ∀ other, other ∈ g.joining source target ∧
      (g.edges[other]?.any fun e => e.kind == kind) = true ↔
        ∃ e, g.edges[other]? = some e ∧ e.key = (source, target, kind) := by
    intro other
    rw [joining, List.mem_filter, h.leaving, List.mem_reverse, mem_placesOf]
    rcases g.edges[other]? with _ | e
    · simp
    · simp [Edge.key, and_assoc]
  have hfound : ∀ other, g.joiningOf? source target kind = some other →
      ∃ e, g.edges[other]? = some e ∧ e.key = (source, target, kind) := by
    intro other hfind
    have hkind : (g.edges[other]?.any fun e => e.kind == kind) = true := by
      simpa using List.find?_some hfind
    exact (hmem other).1 ⟨List.mem_of_find?_eq_some hfind, hkind⟩
  refine ⟨hfound place, ?_⟩
  rintro ⟨e, he, hkey⟩
  obtain ⟨hin, hkind⟩ := (hmem place).2 ⟨e, he, hkey⟩
  rcases hfind : g.joiningOf? source target kind with _ | other
  · exact absurd hkind (List.find?_eq_none.1 hfind place hin)
  · -- whatever is found has the same nodes and type, so it is the same edge
    obtain ⟨f, hf, hkey'⟩ := hfound other hfind
    rw [h.distinct other place f e hf he (hkey'.trans hkey.symm)]

theorem joiningOf?_eq_none_iff {source target : Nat} {kind : String} :
    g.joiningOf? source target kind = none ↔
      ∀ (place : Nat) (e : Edge S), g.edges[place]? = some e →
        e.key ≠ (source, target, kind) := by
  rw [Option.eq_none_iff_forall_ne_some]
  constructor
  · intro hnone place e he hkey
    exact hnone place (h.joiningOf?_eq_some_iff.2 ⟨e, he, hkey⟩)
  · rintro hnone place hplace
    obtain ⟨e, he, hkey⟩ := h.joiningOf?_eq_some_iff.1 hplace
    exact hnone place e he hkey

end Sound

/-! ### Adding nodes and edges -/

section Nodes

variable {e : Entity S}

theorem leavingAt_addNode (g : IndexedGraph S) (e : Entity S) (place : Nat) :
    (g.addNode e).leavingAt place = g.leavingAt place := by
  rw [leavingAt, leavingAt, addNode, Array.getElem?_push]
  split
  · rename_i heq
    rw [heq, Array.getElem?_eq_none (Nat.le_refl _)]
    rfl
  · rfl

theorem enteringAt_addNode (g : IndexedGraph S) (e : Entity S) (place : Nat) :
    (g.addNode e).enteringAt place = g.enteringAt place := by
  rw [enteringAt, enteringAt, addNode, Array.getElem?_push]
  split
  · rename_i heq
    rw [heq, Array.getElem?_eq_none (Nat.le_refl _)]
    rfl
  · rfl

/-- A node stays in its place, and a new one comes last. -/
theorem entityAt?_addNode (g : IndexedGraph S) (e : Entity S) (place : Nat) :
    (g.addNode e).entityAt? place = if place = g.nodes.size then some e else g.entityAt? place := by
  rw [entityAt?, entityAt?, addNode, Array.getElem?_push]
  split <;> rfl

/-- **A node for a new identifier** keeps the indices sound. -/
theorem Sound.addNode (h : g.Sound) (hnew : g.place? e.id = none) : (g.addNode e).Sound where
  place id place := by
    have hget : (g.addNode e).place? id = if e.id = id then some g.nodes.size else g.place? id :=
      Table.get?_insert g.places e.id id g.nodes.size
    rw [hget, entityAt?_addNode]
    by_cases hid : e.id = id
    · subst hid
      by_cases hplace : place = g.nodes.size
      · simp [hplace]
      · -- no older node has the identifier
        rw [if_pos rfl, if_neg hplace, ← h.place, hnew]
        simp [Ne.symm hplace]
    · rw [if_neg hid, h.place]
      by_cases hplace : place = g.nodes.size
      · rw [if_pos hplace, hplace, entityAt?, Array.getElem?_eq_none (Nat.le_refl _)]
        simp [hid]
      · rw [if_neg hplace]
  ends place edge hedge := by
    obtain ⟨hs, ht⟩ := h.ends place edge hedge
    have hsize : (g.addNode e).nodes.size = g.nodes.size + 1 := Array.size_push _
    omega
  leaving place := (leavingAt_addNode g e place).trans (h.leaving place)
  entering place := (enteringAt_addNode g e place).trans (h.entering place)
  kindPlaces := h.kindPlaces
  kinds_ordered := h.kinds_ordered
  distinct := h.distinct
  nodeCount := by
    have hlength : (g.places.insert e.id g.nodes.size).length = g.places.length + 1 :=
      Table.length_insert hnew
    have hcount : g.places.length = g.nodes.size := h.nodeCount
    rw [IndexedGraph.nodeCount, IndexedGraph.addNode, hlength, hcount, Array.size_push]
  edgeCount := h.edgeCount

end Nodes

section Edges

variable {e : Edge S}

/-- The entity at a place is the same after an edge was added. -/
theorem entityAt?_addEdge (g : IndexedGraph S) (e : Edge S) (place : Nat) :
    (g.addEdge e).entityAt? place = g.entityAt? place := by
  rw [entityAt?, entityAt?, addEdge]
  simp only [Array.getElem?_modify]
  rcases g.nodes[place]? with _ | node
  · split <;> split <;> rfl
  · split <;> split <;> rfl

theorem leavingAt_addEdge (g : IndexedGraph S) (hsource : e.source < g.nodes.size) (place : Nat) :
    (g.addEdge e).leavingAt place =
      if e.source = place then g.edges.size :: g.leavingAt place else g.leavingAt place := by
  rw [leavingAt, leavingAt, addEdge]
  simp only [Array.getElem?_modify]
  rcases hnode : g.nodes[place]? with _ | node
  · have hle : g.nodes.size ≤ place := Array.getElem?_eq_none_iff.1 hnode
    have hne : e.source ≠ place := by omega
    simp [hne]
  · by_cases hs : e.source = place <;> by_cases ht : e.target = place <;> simp [hs, ht]

theorem enteringAt_addEdge (g : IndexedGraph S) (htarget : e.target < g.nodes.size) (place : Nat) :
    (g.addEdge e).enteringAt place =
      if e.target = place then g.edges.size :: g.enteringAt place else g.enteringAt place := by
  rw [enteringAt, enteringAt, addEdge]
  simp only [Array.getElem?_modify]
  rcases hnode : g.nodes[place]? with _ | node
  · have hle : g.nodes.size ≤ place := Array.getElem?_eq_none_iff.1 hnode
    have hne : e.target ≠ place := by omega
    simp [hne]
  · by_cases hs : e.source = place <;> by_cases ht : e.target = place <;> simp [hs, ht]

/-- **A new edge** keeps the indices sound. -/
theorem Sound.addEdge (h : g.Sound) (hsource : e.source < g.nodes.size)
    (htarget : e.target < g.nodes.size)
    (hnew : g.joiningOf? e.source e.target e.kind = none) : (g.addEdge e).Sound where
  place id place := by
    rw [entityAt?_addEdge]
    exact h.place id place
  ends place edge hedge := by
    have hsize : (g.addEdge e).nodes.size = g.nodes.size := by
      simp [IndexedGraph.addEdge]
    have hpush : (g.edges.push e)[place]? = some edge := hedge
    rw [Array.getElem?_push] at hpush
    rw [hsize]
    split at hpush
    · obtain rfl := Option.some.inj hpush
      exact ⟨hsource, htarget⟩
    · exact h.ends place edge hpush
  leaving place := by
    have hedges : (g.addEdge e).edges = g.edges.push e := rfl
    rw [leavingAt_addEdge g hsource, hedges, placesOf_push, h.leaving]
    by_cases hs : e.source = place <;> simp [hs]
  entering place := by
    have hedges : (g.addEdge e).edges = g.edges.push e := rfl
    rw [enteringAt_addEdge g htarget, hedges, placesOf_push, h.entering]
    by_cases ht : e.target = place <;> simp [ht]
  kindPlaces kind := by
    have hedges : (g.addEdge e).edges = g.edges.push e := rfl
    have hget : (g.addEdge e).kindPlaces.get? kind =
        if e.kind = kind then some ((g.kindPlaces.get? e.kind).getD [] ++ [g.edges.size])
        else g.kindPlaces.get? kind := Table.get?_insert g.kindPlaces e.kind kind _
    rw [hget, hedges, placesOf_push, h.kindPlaces, h.kindPlaces]
    by_cases hk : e.kind = kind
    · subst hk
      by_cases hnil : (placesOf g.edges fun f => f.kind == e.kind) = [] <;> simp [hnil]
    · simp [hk]
  kinds_ordered := h.kinds_ordered.insert e.kind _
  distinct p q e₁ e₂ h₁ h₂ hkey := by
    have hnone := h.joiningOf?_eq_none_iff.1 hnew
    have h₁' : (g.edges.push e)[p]? = some e₁ := h₁
    have h₂' : (g.edges.push e)[q]? = some e₂ := h₂
    rw [Array.getElem?_push] at h₁' h₂'
    -- of two different places one holds an older edge, and no older edge has the nodes and the
    -- type of the new one
    split at h₁' <;> split at h₂'
    · omega
    · obtain rfl := Option.some.inj h₁'
      exact absurd hkey.symm (hnone q e₂ h₂')
    · obtain rfl := Option.some.inj h₂'
      exact absurd hkey (hnone p e₁ h₁')
    · exact h.distinct p q e₁ e₂ h₁' h₂' hkey
  nodeCount := by
    have hsize : (g.addEdge e).nodes.size = g.nodes.size := by
      simp [IndexedGraph.addEdge]
    rw [hsize]
    exact h.nodeCount
  edgeCount := by
    have hsize : (g.addEdge e).edges.size = g.edges.size + 1 := Array.size_push _
    have hcount : (g.addEdge e).edgeCount = g.edgeCount + 1 := rfl
    rw [hsize, hcount, h.edgeCount]

end Edges

/-! ### What the edges stand for -/

/-- What a function gives below a bound, where it always gives something, in a list. -/
theorem getElem?_filterMap_range {α : Type} {f : Nat → Option α} {n : Nat}
    (hf : ∀ i < n, (f i).isSome) (i : Nat) :
    ((List.range n).filterMap f)[i]? = if i < n then f i else none := by
  have hlength : ∀ m ≤ n, ((List.range m).filterMap f).length = m := by
    intro m hm
    rw [List.length_filterMap_eq_countP, List.countP_eq_length.2, List.length_range]
    exact fun j hj => hf j (Nat.lt_of_lt_of_le (List.mem_range.1 hj) hm)
  induction n with
  | zero => rfl
  | succ n ih =>
    obtain ⟨a, ha⟩ := Option.isSome_iff_exists.1 (hf n (Nat.lt_succ_self n))
    have hn := hlength n (Nat.le_succ n)
    rw [List.range_succ, List.filterMap_append, List.filterMap_cons_some ha, List.filterMap_nil]
    rcases Nat.lt_trichotomy i n with hlt | rfl | hgt
    · rw [List.getElem?_append_left (hn.symm ▸ hlt), ih (fun j hj => hf j (by omega))
        (fun m hm => hlength m (by omega)), if_pos hlt, if_pos (by omega)]
    · rw [List.getElem?_append_right (Nat.le_of_eq hn), hn, if_pos (by omega), ha, Nat.sub_self]
      rfl
    · rw [if_neg (by omega), List.getElem?_eq_none]
      rw [List.length_append, hn]
      exact hgt

theorem relationAt?_eq_some_iff {place : Nat} {r : Relation S} :
    g.relationAt? place = some r ↔ ∃ e source target, g.edges[place]? = some e ∧
      g.entityAt? e.source = some source ∧ g.entityAt? e.target = some target ∧
      r = e.between source target := by
  rw [relationAt?]
  rcases g.edges[place]? with _ | e
  · simp
  rcases hs : g.entityAt? e.source with _ | source
  · simp [hs]
  rcases ht : g.entityAt? e.target with _ | target
  · simp [hs, ht]
  · simp [hs, ht, eq_comm]

theorem exists_edge {place : Nat} (hplace : place < g.edges.size) :
    ∃ e, g.edges[place]? = some e :=
  ⟨_, Array.getElem?_eq_getElem hplace⟩

theorem entityAt?_of_lt {place : Nat} (hplace : place < g.nodes.size) :
    ∃ e, g.entityAt? place = some e := by
  rw [entityAt?, Array.getElem?_eq_getElem hplace]
  exact ⟨_, rfl⟩

theorem lt_of_entityAt? {place : Nat} {e : Entity S} (he : g.entityAt? place = some e) :
    place < g.nodes.size := by
  obtain ⟨node, hnode, -⟩ := Option.map_eq_some_iff.1 he
  exact (Array.getElem?_eq_some_iff.1 hnode).1

namespace Sound

variable (h : g.Sound)
include h

theorem place?_of_entityAt? {place : Nat} {e : Entity S} (he : g.entityAt? place = some e) :
    g.place? e.id = some place := by
  rw [h.place, he]
  rfl

theorem entityAt?_of_place? {id : String} {place : Nat} (hplace : g.place? id = some place) :
    ∃ e, g.entityAt? place = some e ∧ e.id = id :=
  Option.map_eq_some_iff.1 ((h.place id place).1 hplace)

theorem place?_eq_none {id : String} (hnone : g.entity? id = none) : g.place? id = none := by
  rcases hplace : g.place? id with _ | place
  · rfl
  · obtain ⟨e, he, -⟩ := h.entityAt?_of_place? hplace
    rw [entity?, hplace, Option.bind_some, he] at hnone
    cases hnone

/-- **Every edge stands for a relation.** -/
theorem exists_relationAt? {place : Nat} {e : Edge S} (he : g.edges[place]? = some e) :
    ∃ source target, g.entityAt? e.source = some source ∧ g.entityAt? e.target = some target ∧
      g.relationAt? place = some (e.between source target) := by
  obtain ⟨hs, ht⟩ := h.ends place e he
  obtain ⟨source, hsource⟩ := entityAt?_of_lt hs
  obtain ⟨target, htarget⟩ := entityAt?_of_lt ht
  exact ⟨source, target, hsource, htarget,
    relationAt?_eq_some_iff.2 ⟨e, source, target, he, hsource, htarget, rfl⟩⟩

theorem isSome_relationAt? {place : Nat} (hplace : place < g.edges.size) :
    (g.relationAt? place).isSome := by
  obtain ⟨e, he⟩ := exists_edge hplace
  obtain ⟨source, target, -, -, hr⟩ := h.exists_relationAt? he
  rw [hr]
  rfl

/-- **The relations are listed by the places of their edges.** -/
theorem getElem?_relations (place : Nat) : g.relations[place]? = g.relationAt? place := by
  rw [relations, getElem?_filterMap_range fun i hi => h.isSome_relationAt? hi]
  split
  · rfl
  · rename_i hplace
    rw [relationAt?, Array.getElem?_eq_none (Nat.le_of_not_lt hplace)]
    rfl

/-- The triple of a relation says which nodes its edge joins, and its type. -/
theorem triple_relationAt? {place : Nat} {e : Edge S} {r : Relation S}
    (he : g.edges[place]? = some e) (hr : g.relationAt? place = some r)
    {source target kind : String} : r.triple = (source, target, kind) ↔
      g.place? source = some e.source ∧ g.place? target = some e.target ∧ e.kind = kind := by
  obtain ⟨s, t, hs, ht, hrel⟩ := h.exists_relationAt? he
  obtain rfl := Option.some.inj (hr.symm.trans hrel)
  rw [h.place, h.place, hs, ht]
  simp [Relation.triple, Edge.between]

/-! ### The plain graph -/

theorem entity?_toGraph (id : String) : g.toGraph.entity? id = g.entity? id := by
  have hmem : ∀ e ∈ g.entities, ∃ place, g.entityAt? place = some e := by
    intro e he
    obtain ⟨node, hnode, rfl⟩ := List.mem_map.1 he
    obtain ⟨place, hplace⟩ := List.getElem?_of_mem hnode
    exact ⟨place, by rw [entityAt?, ← Array.getElem?_toList, hplace, Option.map_some]⟩
  rw [entity?]
  rcases hplace : g.place? id with _ | place
  · -- an entity with the identifier would have a place
    refine List.find?_eq_none.2 fun e he hid => ?_
    obtain ⟨place, he'⟩ := hmem e he
    have := h.place?_of_entityAt? he'
    rw [eq_of_beq hid, hplace] at this
    cases this
  · obtain ⟨e, he, hid⟩ := h.entityAt?_of_place? hplace
    have hin : e ∈ g.entities := by
      obtain ⟨node, hnode, rfl⟩ := Option.map_eq_some_iff.1 he
      exact List.mem_map_of_mem (Array.mem_toList_iff.2 (Array.mem_of_getElem? hnode))
    rcases hfind : g.entities.find? fun e => e.id == id with _ | e'
    · exact absurd (beq_iff_eq.2 hid) (List.find?_eq_none.1 hfind e hin)
    · obtain ⟨place', he'⟩ := hmem e' (List.mem_of_find?_eq_some hfind)
      have hid' : e'.id = id := by simpa using List.find?_some hfind
      have hplace' := h.place?_of_entityAt? he'
      rw [hid', hplace] at hplace'
      obtain rfl := Option.some.inj hplace'
      exact hfind.trans (he'.symm)

theorem hasEntity_toGraph (id : String) : g.toGraph.hasEntity id = g.hasEntity id := by
  have hplace : g.hasEntity id = true ↔ ∃ e, g.entity? id = some e := by
    rw [hasEntity, Table.contains_iff, entity?]
    constructor
    · rintro ⟨place, hplace⟩
      obtain ⟨e, he, -⟩ := h.entityAt?_of_place? hplace
      exact ⟨e, Option.bind_eq_some_iff.2 ⟨place, hplace, he⟩⟩
    · rintro ⟨e, he⟩
      obtain ⟨place, hplace, -⟩ := Option.bind_eq_some_iff.1 he
      exact ⟨place, hplace⟩
  rw [Bool.eq_iff_iff, Graph.hasEntity_iff, hplace, h.entity?_toGraph]

end Sound

/-- Only the entities at the ends of an edge matter for its relation. -/
theorem relations_congr {g' : IndexedGraph S} (hedges : g'.edges = g.edges)
    (hentity : ∀ place e, g.entityAt? place = some e → g'.entityAt? place = some e)
    (h : g.Sound) : g'.relations = g.relations := by
  rw [relations, relations, hedges]
  refine List.filterMap_congr fun place hplace => ?_
  obtain ⟨e, he⟩ := exists_edge (List.mem_range.1 hplace)
  obtain ⟨source, target, hs, ht, hr⟩ := h.exists_relationAt? he
  rw [hr]
  exact relationAt?_eq_some_iff.2
    ⟨e, source, target, hedges ▸ he, hentity _ _ hs, hentity _ _ ht, rfl⟩

/-- **A node for a new identifier** binds it in the plain graph. -/
theorem Sound.toGraph_addNode (h : g.Sound) {e : Entity S} (hnew : g.place? e.id = none) :
    (g.addNode e).toGraph = g.toGraph.bind e := by
  have hbound : g.toGraph.hasEntity e.id = false := by
    rw [h.hasEntity_toGraph, hasEntity, Table.contains, show g.places.get? e.id = none from hnew]
    rfl
  have hentities : (g.addNode e).entities = g.entities ++ [e] := by
    simp [entities, IndexedGraph.addNode]
  have hrelations : (g.addNode e).relations = g.relations := by
    refine relations_congr rfl (fun place bound hbound => ?_) h
    rw [entityAt?_addNode, if_neg (Nat.ne_of_lt (lt_of_entityAt? hbound)), hbound]
  rw [Graph.bind, hbound, toGraph, hentities, hrelations]
  rfl

/-- **A node is ensured**: the identifier is bound as in the plain graph, and the node found. -/
theorem Sound.ensure (h : g.Sound) (e : Entity S) :
    (g.ensure e).1.Sound ∧ (g.ensure e).1.toGraph = g.toGraph.bind e ∧
      (g.ensure e).1.place? e.id = some (g.ensure e).2 ∧
      ∀ id place, g.place? id = some place → (g.ensure e).1.place? id = some place := by
  rw [IndexedGraph.ensure]
  rcases hplace : g.place? e.id with _ | place
  · have hget : ∀ id, (g.addNode e).place? id =
        if e.id = id then some g.nodes.size else g.place? id := fun id =>
      Table.get?_insert g.places e.id id g.nodes.size
    refine ⟨h.addNode hplace, h.toGraph_addNode hplace, ?_, fun id other hother => ?_⟩
    · rw [hget, if_pos rfl]
    · rw [hget, if_neg fun heq => ?_]
      · exact hother
      · rw [← heq, hplace] at hother
        cases hother
  · have hbound : g.toGraph.hasEntity e.id = true := by
      rw [h.hasEntity_toGraph]
      exact Table.contains_iff.2 ⟨place, hplace⟩
    exact ⟨h, by rw [Graph.bind, if_pos hbound], hplace, fun _ _ hother => hother⟩

/-- **An edge that gets another content** keeps the indices sound: they speak only of its nodes and
its type. -/
theorem Sound.modify (h : g.Sound) {place : Nat} {f : Edge S → Edge S}
    (hf : ∀ e, g.edges[place]? = some e → (f e).key = e.key) :
    { g with edges := g.edges.modify place f }.Sound := by
  have hedge : ∀ {other : Nat} {e : Edge S}, (g.edges.modify place f)[other]? = some e →
      ∃ old, g.edges[other]? = some old ∧ e.key = old.key := by
    intro other e he
    rw [Array.getElem?_modify] at he
    split at he
    · rename_i heq
      subst heq
      obtain ⟨old, hold, rfl⟩ := Option.map_eq_some_iff.1 he
      exact ⟨old, hold, hf old hold⟩
    · exact ⟨e, he, rfl⟩
  have hplaces : ∀ p : Nat × Nat × String → Bool,
      placesOf (g.edges.modify place f) (fun e => p e.key) = placesOf g.edges fun e => p e.key :=
    fun p => placesOf_modify fun e he => congrArg p (hf e he)
  constructor
  · exact h.place
  · intro other e he
    obtain ⟨old, hold, hkey⟩ := hedge he
    obtain ⟨hs, ht⟩ := h.ends other old hold
    have hsource : e.source = old.source := congrArg Prod.fst hkey
    have htarget : e.target = old.target := congrArg (fun key => key.2.1) hkey
    exact ⟨hsource ▸ hs, htarget ▸ ht⟩
  · intro node
    exact (h.leaving node).trans (congrArg List.reverse (hplaces fun key => key.1 == node).symm)
  · intro node
    exact (h.entering node).trans (congrArg List.reverse (hplaces fun key => key.2.1 == node).symm)
  · intro kind
    have hkind := hplaces fun key => key.2.2 == kind
    simp only [Edge.key] at hkind
    rw [hkind]
    exact h.kindPlaces kind
  · exact h.kinds_ordered
  · intro p q e₁ e₂ he₁ he₂ hkey
    obtain ⟨old₁, hold₁, hkey₁⟩ := hedge he₁
    obtain ⟨old₂, hold₂, hkey₂⟩ := hedge he₂
    exact h.distinct p q old₁ old₂ hold₁ hold₂ (hkey₁.symm.trans (hkey.trans hkey₂))
  · exact h.nodeCount
  · rw [Array.size_modify]
    exact h.edgeCount

theorem getElem?_entities (g : IndexedGraph S) (place : Nat) :
    g.entities[place]? = g.entityAt? place := by
  rw [entities, List.getElem?_map, Array.getElem?_toList, entityAt?]

theorem Sound.length_relations (h : g.Sound) : g.relations.length = g.edges.size := by
  rw [relations, List.length_filterMap_eq_countP, List.countP_eq_length.2, List.length_range]
  exact fun place hplace => h.isSome_relationAt? (List.mem_range.1 hplace)

theorem Sound.nodeCount_toGraph (h : g.Sound) : g.toGraph.nodeCount = g.nodeCount := by
  rw [h.nodeCount, Graph.nodeCount, toGraph, entities, List.length_map, Array.length_toList]

section PutEdge

variable {e : Edge S} {s t : Entity S} (hs : g.entityAt? e.source = some s)
  (ht : g.entityAt? e.target = some t)
include hs ht

/-- **A new edge** brings its relation, which comes last. -/
theorem relations_addEdge : (g.addEdge e).relations = g.relations ++ [e.between s t] := by
  have hedges : (g.addEdge e).edges = g.edges.push e := rfl
  have hrelation : ∀ place, (g.addEdge e).relationAt? place =
      if place = g.edges.size then some (e.between s t) else g.relationAt? place := by
    intro place
    rw [relationAt?, hedges, Array.getElem?_push]
    simp only [entityAt?_addEdge]
    split
    · simp [hs, ht]
    · rfl
  rw [relations, hedges, Array.size_push, List.range_succ, List.filterMap_append, relations]
  congr 1
  · refine List.filterMap_congr fun place hplace => ?_
    rw [hrelation, if_neg (Nat.ne_of_lt (List.mem_range.1 hplace))]
  · rw [List.filterMap_cons_some (by rw [hrelation, if_pos rfl]), List.filterMap_nil]

/-- **An edge that gets another content** gives it to its relation, in the same place. -/
theorem Sound.relations_fill (h : g.Sound) {place : Nat} {old : Edge S}
    (hold : g.edges[place]? = some old) (hkey : old.key = e.key) :
    ({ g with edges := g.edges.modify place fun old => old.fill e } : IndexedGraph S).relations =
      g.relations.set place (e.between s t) := by
  obtain ⟨hsource, hrest⟩ := Prod.mk.inj hkey
  obtain ⟨htarget, -⟩ := Prod.mk.inj hrest
  have hfill : old.fill e = e := by
    rw [Edge.fill, hsource, htarget]
  have hsound : { g with edges := g.edges.modify place fun old => old.fill e }.Sound :=
    h.modify fun other hother => by
      obtain rfl := Option.some.inj (hold.symm.trans hother)
      rw [hfill, hkey]
  refine List.ext_getElem? fun other => ?_
  rw [hsound.getElem?_relations, List.getElem?_set, h.length_relations]
  split
  · rename_i heq
    subst heq
    rw [if_pos (Array.getElem?_eq_some_iff.1 hold).1]
    refine relationAt?_eq_some_iff.2 ⟨e, s, t, ?_, hs, ht, rfl⟩
    rw [Array.getElem?_modify, if_pos rfl, hold, Option.map_some, hfill]
  · rename_i hne
    rw [h.getElem?_relations, relationAt?, relationAt?, Array.getElem?_modify, if_neg hne]
    rfl

/-- A record has the triple of an edge exactly when its own edge has the nodes and the type. -/
theorem Sound.triple_record (h : g.Sound) {place : Nat} {f : Edge S} {r : Record S}
    (hf : g.edges[place]? = some f) (hr : g.toGraph.records[place]? = some r) :
    r.triple = (e.between s t).toRecord.triple ↔ f.key = e.key := by
  rw [toGraph, List.getElem?_map, h.getElem?_relations] at hr
  obtain ⟨rel, hrel, rfl⟩ := Option.map_eq_some_iff.1 hr
  have hiff : rel.triple = (s.id, t.id, e.kind) ↔ _ := h.triple_relationAt? hf hrel
  rw [h.place?_of_entityAt? hs, h.place?_of_entityAt? ht] at hiff
  refine hiff.trans ?_
  simp [Edge.key, eq_comm]

theorem Sound.put_addEdge (h : g.Sound) (hnew : g.joiningOf? e.source e.target e.kind = none) :
    (g.addEdge e).toGraph =
      { g.toGraph with records := Graph.put g.toGraph.records (e.between s t).toRecord } := by
  have hentities : (g.addEdge e).entities = g.entities := List.ext_getElem? fun place => by
    rw [getElem?_entities, getElem?_entities, entityAt?_addEdge]
  have hput : Graph.put g.toGraph.records (e.between s t).toRecord =
      g.toGraph.records ++ [(e.between s t).toRecord] := by
    refine Graph.put_eq_append fun old hold heq => ?_
    obtain ⟨place, hplace⟩ := List.getElem?_of_mem hold
    have hlt : place < g.edges.size := by
      rw [← h.length_relations, ← List.length_map Relation.toRecord]
      exact (List.getElem?_eq_some_iff.1 hplace).1
    obtain ⟨f, hf⟩ := exists_edge hlt
    exact h.joiningOf?_eq_none_iff.1 hnew place f hf ((h.triple_record hs ht hf hplace).1 heq)
  rw [hput, toGraph, hentities, relations_addEdge hs ht, List.map_append, List.map_singleton]
  rfl

theorem Sound.put_fill (h : g.Sound) {place : Nat} {old : Edge S}
    (hold : g.edges[place]? = some old) (hkey : old.key = e.key) :
    ({ g with edges := g.edges.modify place fun old => old.fill e } : IndexedGraph S).toGraph =
      { g.toGraph with records := Graph.put g.toGraph.records (e.between s t).toRecord } := by
  have hrecord : ∀ (other : Nat) (f : Edge S), g.edges[other]? = some f →
      ∃ r, g.toGraph.records[other]? = some r := by
    intro other f hf
    obtain ⟨source, target, -, -, hrel⟩ := h.exists_relationAt? hf
    exact ⟨_, by rw [toGraph, List.getElem?_map, h.getElem?_relations, hrel]; rfl⟩
  obtain ⟨r, hr⟩ := hrecord place old hold
  have hput : Graph.put g.toGraph.records (e.between s t).toRecord =
      g.toGraph.records.set place (e.between s t).toRecord := by
    refine Graph.put_eq_set hr ((h.triple_record hs ht hold hr).2 hkey) ?_
    intro before hbefore other hother heq
    have hlt : before < g.edges.size :=
      Nat.lt_trans hbefore (Array.getElem?_eq_some_iff.1 hold).1
    obtain ⟨f, hf⟩ := exists_edge hlt
    -- an earlier edge with the same nodes and type would be the same edge
    have hsame := (h.triple_record hs ht hf hother).1 heq
    exact Nat.ne_of_lt hbefore (h.distinct before place f old hf hold (hsame.trans hkey.symm))
  rw [hput, toGraph, h.relations_fill hs ht hold hkey, List.map_set]
  rfl

/-- **An edge is put**: the indices stay sound, and its record is put in the plain graph. -/
theorem Sound.putEdge (h : g.Sound) : (g.putEdge e).Sound ∧ (g.putEdge e).toGraph =
    { g.toGraph with records := Graph.put g.toGraph.records (e.between s t).toRecord } := by
  rw [IndexedGraph.putEdge]
  rcases hjoin : g.joiningOf? e.source e.target e.kind with _ | place
  · exact ⟨h.addEdge (lt_of_entityAt? hs) (lt_of_entityAt? ht) hjoin, h.put_addEdge hs ht hjoin⟩
  · obtain ⟨old, hold, hkey⟩ := h.joiningOf?_eq_some_iff.1 hjoin
    refine ⟨h.modify fun other hother => ?_, h.put_fill hs ht hold hkey⟩
    obtain rfl := Option.some.inj (hold.symm.trans hother)
    have hkind : e.kind = old.kind := congrArg (fun key => key.2.2) hkey.symm
    rw [Edge.key, Edge.key, Edge.fill, hkind]

end PutEdge

/-! ### Growing -/

section Grow

variable [Scalar S]

theorem addRelation_eq (g : IndexedGraph S) (r : Relation S) :
    g.addRelation r = (r.validate).map fun _ =>
      let source := g.ensure r.source
      let target := source.1.ensure r.target
      target.1.putEdge (edgeOf r source.2 target.2) := by
  rw [addRelation]
  rcases r.validate with error | ⟨⟩ <;> rfl

/-- **Adding an entity** does to the plain graph what it does there, with the same answer. -/
theorem Sound.addEntity (h : g.Sound) (e : Entity S) :
    (∀ added, g.addEntity e = .ok added → added.2.Sound) ∧
      (g.addEntity e).map (Prod.map id toGraph) = g.toGraph.addEntity e := by
  rw [IndexedGraph.addEntity, Graph.addEntity, h.entity?_toGraph]
  rcases e.validate with error | ⟨⟩
  · refine ⟨fun added hadded => ?_, rfl⟩
    cases hadded
  rcases hbound : g.entity? e.id with _ | bound
  · have hnew := h.place?_eq_none hbound
    have hgraph : (g.addNode e).toGraph =
        { g.toGraph with entities := g.toGraph.entities ++ [e] } := by
      rw [h.toGraph_addNode hnew, Graph.bind, if_neg]
      rw [Graph.hasEntity_iff, h.entity?_toGraph, hbound]
      rintro ⟨_, he⟩
      cases he
    refine ⟨fun added hadded => ?_, congrArg (fun g => Except.ok (true, g)) hgraph⟩
    obtain rfl := Except.ok.inj hadded
    exact h.addNode hnew
  · rcases hsame : bound == e with _ | _
    · simp only [Bind.bind, Except.bind, hsame]
      refine ⟨fun added hadded => ?_, rfl⟩
      cases hadded
    · simp only [Bind.bind, Except.bind, hsame, if_true]
      refine ⟨fun added hadded => ?_, rfl⟩
      obtain rfl := Except.ok.inj hadded
      exact h

/-- **Adding a relation** does to the plain graph what it does there. -/
theorem Sound.addRelation (h : g.Sound) (r : Relation S) :
    (∀ g', g.addRelation r = .ok g' → g'.Sound) ∧
      (g.addRelation r).map toGraph = g.toGraph.addRelation r := by
  obtain ⟨hsound₁, hgraph₁, hsource₁, -⟩ := h.ensure r.source
  obtain ⟨hsound₂, hgraph₂, htarget, hkeep⟩ := hsound₁.ensure r.target
  obtain ⟨s, hs, hsid⟩ := hsound₂.entityAt?_of_place? (hkeep _ _ hsource₁)
  obtain ⟨t, ht, htid⟩ := hsound₂.entityAt?_of_place? htarget
  -- the edge of the relation joins the nodes that were ensured
  let edge := edgeOf r (g.ensure r.source).2 ((g.ensure r.source).1.ensure r.target).2
  obtain ⟨hsound, hgraph⟩ := hsound₂.putEdge (e := edge) hs ht
  have hrecord : (edge.between s t).toRecord = r.toRecord := by
    rw [Relation.toRecord, Relation.toRecord, Edge.between, hsid, htid]
    rfl
  have hrecords : ((g.toGraph.bind r.source).bind r.target).records = g.toGraph.records := by
    rw [Graph.records_bind, Graph.records_bind]
  rw [hgraph₂, hgraph₁, hrecord, hrecords] at hgraph
  rw [addRelation_eq, Graph.addRelation_eq]
  rcases r.validate with error | ⟨⟩
  · exact ⟨nofun, rfl⟩
  · refine ⟨fun g' hg' => ?_, congrArg Except.ok hgraph⟩
    obtain rfl := Except.ok.inj hg'
    exact hsound

/-- Makes a call. -/
def insert (g : IndexedGraph S) : Graph.Insertion S → Result S (IndexedGraph S)
  | .entity e => (g.addEntity e).map Prod.snd
  | .relation r => g.addRelation r

/-- The graph after a call, which is the graph before it if the call fails. -/
def after (g : IndexedGraph S) (call : Graph.Insertion S) : IndexedGraph S :=
  match g.insert call with
  | .ok g' => g'
  | .error _ => g

/-- The graph after some calls. -/
def grow (g : IndexedGraph S) (calls : List (Graph.Insertion S)) : IndexedGraph S :=
  calls.foldl after g

/-- **A call** does to the plain graph what it does there. -/
theorem Sound.insert (h : g.Sound) (call : Graph.Insertion S) :
    (∀ g', g.insert call = .ok g' → g'.Sound) ∧
      (g.insert call).map toGraph = g.toGraph.insert call := by
  cases call with
  | entity e =>
    obtain ⟨hsound, hgraph⟩ := h.addEntity e
    rw [Graph.insert, ← hgraph, IndexedGraph.insert]
    rcases hadd : g.addEntity e with error | added
    · refine ⟨fun g' hg' => ?_, rfl⟩
      cases hg'
    · refine ⟨fun g' hg' => ?_, rfl⟩
      obtain rfl := Except.ok.inj hg'
      exact hsound added hadd
  | relation r => exact h.addRelation r

/-- A call that is refused leaves both graphs as they are. -/
theorem Sound.after (h : g.Sound) (call : Graph.Insertion S) :
    (g.after call).Sound ∧ (g.after call).toGraph = g.toGraph.after call := by
  obtain ⟨hstep, hmap⟩ := h.insert call
  rw [IndexedGraph.after, Graph.after, ← hmap]
  rcases hcall : g.insert call with error | g'
  · exact ⟨h, rfl⟩
  · exact ⟨hstep g' hcall, rfl⟩

/-- **The indexed graph follows the plain one**, call by call. -/
theorem sound_grow (calls : List (Graph.Insertion S)) :
    (grow empty calls).Sound ∧ (grow empty calls).toGraph = Graph.grow Graph.empty calls := by
  induction calls using List.reverseRecOn with
  | nil => exact ⟨sound_empty, rfl⟩
  | append_singleton calls call ih =>
    obtain ⟨hsound, hgraph⟩ := ih
    have hgrow : grow empty (calls ++ [call]) = (grow empty calls).after call := List.foldl_append
    rw [hgrow, Graph.grow_concat, ← hgraph]
    exact hsound.after call

end Grow

end IndexedGraph

end GraphReasoner
