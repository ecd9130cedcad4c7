import GraphReasoner.Chain.WalkSearch
import GraphReasoner.Proofs.Chain.Walk
import GraphReasoner.Proofs.Graph.PathSearch

/-!
# The search for walks is exact

The edges are tried at each node in the order of their places, and the search goes on from every
node, so it looks at all trails of edges (`GraphReasoner.IndexedGraph.trailsAt`), in lexicographic
order. A trail of places is a walk along the relations at these places
(`GraphReasoner.IndexedGraph.IsWalk`): that each edge leaves the node where the one before led is
that each relation begins with the identifier with which the one before ends, because no two nodes
have the same identifier. The confidence of a walk is looked at when it yields something, and
nowhere else.

Room for the path is set aside before the first step. So there are numbers of hops for which the
program stops although the walks are short, and there is an outcome for all the others.

* `GraphReasoner.IndexedGraph.explore?_exact` – when there is an outcome, and then the walks, their
  order, and what they yield;
* `GraphReasoner.IndexedGraph.Sound.explore?_eq` – the plain graph is searched with the same
  outcome;
* `GraphReasoner.IndexedGraph.explore?_agrees_simplePaths` – the walks to a target against what the
  search for paths finds.
-/

namespace GraphReasoner

open DepthFirst (trails)

namespace IndexedGraph

variable {S : Type} {g : IndexedGraph S}

/-! ### The edges that leave a node -/

section Departures

variable (h : g.Sound)
include h

theorem Sound.departures_eq (node : Nat) :
    g.departures node = placesOf g.edges fun e => e.source == node := by
  rw [departures, h.leaving]
  refine List.Perm.eq_of_sortedLE List.sortedLE_mergeSort
    (placesOf_sorted g.edges fun e => e.source == node).sortedLT.sortedLE ?_
  exact (List.mergeSort_perm _ _).trans (List.reverse_perm _)

theorem Sound.pairwise_departures (node : Nat) : (g.departures node).Pairwise (· < ·) := by
  rw [h.departures_eq]
  exact placesOf_sorted _ _

/-- A relation is what its edge says. -/
theorem Sound.edge_of_relation {place : Nat} {r : Relation S} (hr : g.relations[place]? = some r) :
    ∃ e : Edge S, g.edges[place]? = some e ∧ e.kind = r.kind ∧ e.confidence = r.confidence ∧
      g.entityAt? e.target = some r.target := by
  rw [h.getElem?_relations] at hr
  obtain ⟨e, s, t, he, -, ht, rfl⟩ := relationAt?_eq_some_iff.1 hr
  exact ⟨e, he, rfl, rfl, ht⟩

/-- **An edge leads from one node to another** when its relation joins their names. -/
theorem Sound.departs_iff {item v w : Nat} (hv : v < g.nodes.size) :
    (item ∈ g.departures v ∧ g.edges[item]?.map Edge.target = some w) ↔
      w < g.nodes.size ∧ ∃ r, g.relations[item]? = some r ∧ r.source.id = g.nameAt v ∧
        r.target.id = g.nameAt w := by
  have hedge : (item ∈ g.departures v ∧ g.edges[item]?.map Edge.target = some w) ↔
      ∃ e, g.edges[item]? = some e ∧ e.source = v ∧ e.target = w := by
    rw [h.departures_eq, mem_placesOf]
    rcases g.edges[item]? with _ | e
    · simp
    · simp
  rw [hedge, h.getElem?_relations]
  constructor
  · intro hjoins
    have hw : w < g.nodes.size := by
      obtain ⟨e, he, -, rfl⟩ := hjoins
      exact (h.ends item e he).2
    exact ⟨hw, (h.joins_iff hv hw).1 hjoins⟩
  · exact fun ⟨hw, hr⟩ => (h.joins_iff hv hw).2 hr

end Departures

/-! ### Walks -/

/-- The trails of edges from a node. -/
def trailsAt (g : IndexedGraph S) (hops : Nat) (visited : List Nat) (node : Nat) :
    List (List Nat) :=
  trails (fun place => g.edges[place]?.map Edge.target) g.departures hops visited node

theorem mem_trailsAt_succ_iff {hops : Nat} {visited : List Nat} {node : Nat} {places : List Nat} :
    places ∈ g.trailsAt (hops + 1) visited node ↔
      ∃ place ∈ g.departures node, ∃ other, g.edges[place]?.map Edge.target = some other ∧
        other ∉ visited ∧ ∃ rest, places = place :: rest ∧
          (rest = [] ∨ rest ∈ g.trailsAt hops (other :: visited) other) :=
  DepthFirst.mem_trails_succ_iff

/-- The relations at some places, place by place. -/
def Stores (g : IndexedGraph S) (places : List Nat) (steps : List (Relation S)) : Prop :=
  List.Forall₂ (fun place r => g.relations[place]? = some r) places steps

/-- **A walk** from an entity, with the places of its relations: it follows relations that are
stored, each of them from where the one before leads, and comes to no entity twice. -/
structure IsWalk (g : IndexedGraph S) (start : String) (hops : Nat) (places : List Nat)
    (steps : List (Relation S)) : Prop where
  stored : g.Stores places steps
  ne_nil : steps ≠ []
  length_le : steps.length ≤ hops
  joined : steps.map (fun r => r.source.id) =
    (start :: steps.map fun r => r.target.id).dropLast
  nodup : (start :: steps.map fun r => r.target.id).Nodup

theorem IsWalk.exists_last {start : String} {hops : Nat} {places : List Nat}
    {steps : List (Relation S)} (h : g.IsWalk start hops places steps) :
    ∃ last, steps.getLast? = some last :=
  ⟨_, List.getLast?_eq_some_getLast h.ne_nil⟩

/-- A way on from an identifier, given the identifiers visited. -/
structure LeadsOn (g : IndexedGraph S) (hops : Nat) (visited : List String) (id : String)
    (places : List Nat) (steps : List (Relation S)) : Prop where
  stored : g.Stores places steps
  fresh : Path.Fresh hops visited (steps.map fun r => r.target.id)
  joined : steps.map (fun r => r.source.id) = (id :: steps.map fun r => r.target.id).dropLast

section LeadsOn

variable {hops : Nat} {visited : List String} {id : String} {places : List Nat}
  {steps : List (Relation S)}

/-- A walk is a way on from where it starts. -/
theorem isWalk_iff : g.IsWalk id hops places steps ↔ g.LeadsOn hops [id] id places steps := by
  constructor
  · rintro ⟨hstored, hne, hlength, hjoined, hnodup⟩
    refine ⟨hstored, Path.fresh_singleton_iff.2 ⟨?_, ?_, hnodup⟩, hjoined⟩
    · rwa [Ne, List.map_eq_nil_iff]
    · rwa [List.length_map]
  · rintro ⟨hstored, hfresh, hjoined⟩
    obtain ⟨hne, hlength, hnodup⟩ := Path.fresh_singleton_iff.1 hfresh
    rw [Ne, List.map_eq_nil_iff] at hne
    rw [List.length_map] at hlength
    exact ⟨hstored, hne, hlength, hjoined, hnodup⟩

/-- A way on has a first step, which leads to a new identifier. -/
theorem leadsOn_succ_iff : g.LeadsOn (hops + 1) visited id places steps ↔
    ∃ place r, g.relations[place]? = some r ∧ r.source.id = id ∧ r.target.id ∉ visited ∧
      ∃ rest more, places = place :: rest ∧ steps = r :: more ∧
        (rest = [] ∧ more = [] ∨
          g.LeadsOn hops (r.target.id :: visited) r.target.id rest more) := by
  constructor
  · rintro ⟨hstored, hfresh, hjoined⟩
    rcases hstored with _ | ⟨hfirst, hrest⟩
    · exact absurd rfl hfresh.ne_nil
    rename_i place r rest more
    rw [List.map_cons] at hfresh hjoined
    obtain ⟨hnew, hmore⟩ := Path.fresh_cons_iff.1 hfresh
    obtain ⟨hsource, hjoined⟩ := List.cons.inj hjoined
    refine ⟨place, r, hfirst, hsource, hnew, rest, more, rfl, rfl, ?_⟩
    rcases hmore with hnil | hmore
    · obtain rfl := List.map_eq_nil_iff.1 hnil
      exact Or.inl ⟨List.forall₂_nil_right_iff.1 hrest, rfl⟩
    · exact Or.inr ⟨hrest, hmore, hjoined⟩
  · rintro ⟨place, r, hfirst, rfl, hnew, rest, more, rfl, rfl, hmore⟩
    rcases hmore with ⟨rfl, rfl⟩ | ⟨hrest, hmore, hjoined⟩
    · exact ⟨.cons hfirst .nil, Path.fresh_cons_iff.2 ⟨hnew, Or.inl rfl⟩, rfl⟩
    · exact ⟨.cons hfirst hrest, Path.fresh_cons_iff.2 ⟨hnew, Or.inr hmore⟩,
        congrArg (r.source.id :: ·) hjoined⟩

end LeadsOn

/-- **The trails are the ways on** along stored relations. -/
theorem Sound.mem_trailsAt_iff (h : g.Sound) {hops : Nat} {visited : List Nat} {node : Nat}
    (hvisited : ∀ v ∈ visited, v < g.nodes.size) (hnode : node < g.nodes.size)
    {places : List Nat} : places ∈ g.trailsAt hops visited node ↔
      ∃ steps, g.LeadsOn hops (visited.map g.nameAt) (g.nameAt node) places steps := by
  induction hops generalizing visited node places with
  | zero =>
    refine ⟨nofun, ?_⟩
    rintro ⟨steps, -, hfresh, -⟩
    exact absurd (List.length_eq_zero_iff.1 (Nat.le_zero.1 hfresh.length_le)) hfresh.ne_nil
  | succ hops ih =>
    rw [mem_trailsAt_succ_iff]
    simp only [leadsOn_succ_iff]
    constructor
    · rintro ⟨place, hplace, other, htarget, hother, rest, rfl, hrest⟩
      obtain ⟨hsize, r, hr, hsource, hname⟩ := (h.departs_iff hnode).1 ⟨hplace, htarget⟩
      rw [← h.mem_map_nameAt_iff hvisited hsize, ← hname] at hother
      rcases hrest with rfl | hrest
      · exact ⟨[r], place, r, hr, hsource, hother, [], [], rfl, rfl, Or.inl ⟨rfl, rfl⟩⟩
      · obtain ⟨more, hmore⟩ :=
          (ih (List.forall_mem_cons.2 ⟨hsize, hvisited⟩) hsize).1 hrest
        rw [List.map_cons, ← hname] at hmore
        exact ⟨r :: more, place, r, hr, hsource, hother, rest, more, rfl, rfl, Or.inr hmore⟩
    · rintro ⟨_, place, r, hr, hsource, hother, rest, more, rfl, rfl, hmore⟩
      obtain ⟨e, -, -, -, ht⟩ := h.edge_of_relation hr
      have hsize : e.target < g.nodes.size := lt_of_entityAt? ht
      have hname : r.target.id = g.nameAt e.target := (nameAt_of_entityAt? ht).symm
      obtain ⟨hplace, htarget⟩ := (h.departs_iff hnode).2 ⟨hsize, r, hr, hsource, hname⟩
      rw [hname, h.mem_map_nameAt_iff hvisited hsize] at hother
      refine ⟨place, hplace, e.target, htarget, hother, rest, rfl, ?_⟩
      rcases hmore with ⟨rfl, rfl⟩ | hmore
      · exact Or.inl rfl
      · rw [hname] at hmore
        exact Or.inr ((ih (List.forall_mem_cons.2 ⟨hsize, hvisited⟩) hsize).2 ⟨more, hmore⟩)

/-- **The trails from the node of an entity are the walks from it.** -/
theorem Sound.mem_trailsAt_singleton_iff (h : g.Sound) {start : String} {hops node : Nat}
    (hplace : g.place? start = some node) {places : List Nat} :
    places ∈ g.trailsAt hops [node] node ↔ ∃ steps, g.IsWalk start hops places steps := by
  obtain ⟨hnode, rfl⟩ := h.nameAt_of_place? hplace
  rw [h.mem_trailsAt_iff (List.forall_mem_singleton.2 hnode) hnode, List.map_singleton]
  simp only [isWalk_iff]

/-- A walk starts at an entity. -/
theorem Sound.place?_of_isWalk (h : g.Sound) {start : String} {hops : Nat} {places : List Nat}
    {steps : List (Relation S)} (hwalk : g.IsWalk start hops places steps) :
    ∃ node, g.place? start = some node := by
  obtain ⟨hstored, hne, -, hjoined, -⟩ := hwalk
  rcases hstored with _ | ⟨hfirst, -⟩
  · exact absurd rfl hne
  obtain ⟨hsource, -⟩ := List.cons.inj hjoined
  exact hsource ▸ (h.place?_ends (List.mem_of_getElem? hfirst)).1

/-! ### The walks of the plain graph -/

/-- The records at some places. -/
def recordsAt (g : IndexedGraph S) (places : List Nat) : List (Record S) :=
  (places.filterMap g.relationAt?).map Relation.toRecord

/-- The records that leave an entity are those at the edges that leave its node. -/
theorem Sound.filter_records (h : g.Sound) {node : Nat} (hnode : node < g.nodes.size) :
    (g.toGraph.records.filter fun r => r.source == g.nameAt node) =
      g.recordsAt (g.departures node) := by
  rw [recordsAt, h.departures_eq, h.filterMap_placesOf (q := fun r => r.source.id == g.nameAt node)]
  · exact List.filter_map
  · intro place e r he hr
    exact h.id_beq (h.relationAt?_ends he hr).1 (h.place?_nameAt hnode)

/-- **The trails are the walks of the plain graph**, in the same order. -/
theorem Sound.map_recordsAt_trailsAt (h : g.Sound) {hops node : Nat} {visited : List Nat}
    (hvisited : ∀ v ∈ visited, v < g.nodes.size) (hnode : node < g.nodes.size) :
    (g.trailsAt hops visited node).map g.recordsAt =
      g.toGraph.walksFrom hops (visited.map g.nameAt) (g.nameAt node) := by
  induction hops generalizing visited node with
  | zero => rfl
  | succ hops ih =>
    rw [trailsAt, trails, Graph.walksFrom, h.filter_records hnode, recordsAt, List.map_flatMap,
      List.flatMap_map, List.filterMap_eq_flatMap_toList, List.flatMap_assoc]
    refine List.flatMap_congr fun place hplace => ?_
    rw [h.departures_eq, mem_placesOf] at hplace
    obtain ⟨e, he, -⟩ := hplace
    obtain ⟨s, t, -, ht, hr⟩ := h.exists_relationAt? he
    have hsize : e.target < g.nodes.size := lt_of_entityAt? ht
    have hname : g.nameAt e.target = (e.between s t).toRecord.target := nameAt_of_entityAt? ht
    have hnew : (visited.map g.nameAt).contains (e.between s t).toRecord.target = true ↔
        e.target ∈ visited := by
      rw [List.contains_iff_mem, ← hname]
      exact h.mem_map_nameAt_iff hvisited hsize
    have hcons : ∀ places, g.recordsAt (place :: places) =
        (e.between s t).toRecord :: g.recordsAt places := by
      intro places
      rw [recordsAt, List.filterMap_cons_some hr]
      rfl
    rw [hr, Option.toList_some, List.flatMap_singleton, DepthFirst.trailsAlong, he, Option.map_some]
    simp only [hnew]
    split
    · rfl
    · have hmore := ih (List.forall_mem_cons.2 ⟨hsize, hvisited⟩) hsize
      rw [List.map_cons] at hmore
      rw [List.map_cons, hcons, List.map_map, ← hname, ← hmore, List.map_map]
      exact congrArg (_ :: ·) (List.map_congr_left fun places _ => hcons places)

/-! ### Relations at places -/

section Stored

variable (h : g.Sound) {places : List Nat} {steps : List (Relation S)}
include h

variable (hstored : g.Stores places steps)
include hstored

theorem Sound.confidences : places.filterMap (fun place => g.edges[place]?.map Edge.confidence) =
    steps.map Relation.confidence := by
  refine filterMap_eq_map_of_forall₂ (fun place r hr => ?_) hstored
  obtain ⟨e, he, -, hsame, -⟩ := h.edge_of_relation hr
  rw [he, Option.map_some, hsame]

/-- The nodes between the ends of a walk. -/
theorem Sound.between_ends : (g.targets places.dropLast).filterMap g.idAt? =
    steps.dropLast.map fun r => r.target.id := by
  rw [targets, List.filterMap_filterMap, List.dropLast_eq_take, List.dropLast_eq_take,
    hstored.length_eq]
  refine filterMap_eq_map_of_forall₂ (fun place r hr => ?_) (List.forall₂_take _ hstored)
  obtain ⟨e, he, -, -, htarget⟩ := h.edge_of_relation hr
  rw [he, Option.map_some, Option.bind_some, idAt?, htarget]
  rfl

/-- The last edge of a walk is the first of its path. -/
theorem Sound.head?_reverse {last : Relation S} (hlast : steps.getLast? = some last) :
    ∃ place e, places.reverse.head? = some place ∧ g.edges[place]? = some e ∧ e.kind = last.kind ∧
      g.entityAt? e.target = some last.target := by
  have hreverse := List.forall₂_reverse_iff.2 hstored
  rw [← List.head?_reverse] at hlast
  obtain ⟨before, hbefore⟩ := List.head?_eq_some_iff.1 hlast
  rw [hbefore] at hreverse
  obtain ⟨place, path, hplace, -, hpath⟩ := List.forall₂_cons_right_iff.1 hreverse
  obtain ⟨e, he, hkind, -, htarget⟩ := h.edge_of_relation hplace
  exact ⟨place, e, List.head?_eq_some_iff.2 ⟨path, hpath⟩, he, hkind, htarget⟩

/-- The records at some places are those of the relations there. -/
theorem Sound.recordsAt_eq : g.recordsAt places = steps.map Relation.toRecord := by
  have hsteps : places.filterMap g.relationAt? = steps.map id :=
    filterMap_eq_map_of_forall₂ (fun place r hr => by rw [← h.getElem?_relations, hr, id]) hstored
  rw [recordsAt, hsteps, List.map_id]

end Stored

/-! ### What walks yield -/

variable [Scalar S]

/-- **What a walk yields**: a relation from its start to its end of the type of its last step, whose
confidence is the mean of those along the walk. -/
structure Concludes (g : IndexedGraph S) (start : String) (steps : List (Relation S))
    (r : Relation S) : Prop where
  source : g.entity? start = some r.source
  target : steps.getLast?.map Relation.target = some r.target
  kind : steps.getLast?.map Relation.kind = some r.kind
  confidence : r.confidence = geometricMean (steps.map Relation.confidence)
  properties : r.properties = Graph.walkProperties (steps.map Relation.toRecord)
  temporal : r.temporal = none
  path_length : r.properties.get? "path_length" = some (.ofNat steps.length)
  intermediate_nodes : r.properties.get? "intermediate_nodes" =
    some (.ofTexts (steps.dropLast.map fun step => step.target.id))

/-- The confidence of a walk is that of its records. -/
theorem walkConfidence_map_toRecord (steps : List (Relation S)) :
    Graph.walkConfidence (steps.map Relation.toRecord) =
      geometricMean (steps.map Relation.confidence) := by
  rw [Graph.walkConfidence, List.map_map]
  rfl

section Conclusion

variable (h : g.Sound) {start : String} {hops : Nat} {entity : Entity S} {floor : S}
  {places : List Nat} {steps : List (Relation S)}
include h

/-- **A walk yields a relation** if its confidence reaches the floor. -/
theorem Sound.concludeWalk_eq (hstored : g.Stores places steps) {last : Relation S}
    (hlast : steps.getLast? = some last) :
    g.concludeWalk entity floor places.reverse =
      if floor ≤ geometricMean (steps.map Relation.confidence) then
        some (.derived entity last.target last.kind (geometricMean (steps.map Relation.confidence))
          (Graph.walkProperties (steps.map Relation.toRecord)))
      else none := by
  obtain ⟨place, e, hhead, he, hkind, htarget⟩ := h.head?_reverse hstored hlast
  have hproperties : Graph.walkProperties (steps.map Relation.toRecord) = Properties.ofList
      [("inferred", .bool true), ("inference", .text "multi_hop"),
        ("path_length", .ofNat places.length),
        ("intermediate_nodes", .ofTexts ((g.targets places.dropLast).filterMap g.idAt?))] := by
    rw [h.between_ends hstored, Graph.walkProperties, List.length_map, ← List.map_dropLast,
      List.map_map, hstored.length_eq]
    rfl
  rw [concludeWalk, hhead, hproperties, ← h.confidences hstored, List.reverse_reverse]
  simp only [Option.bind_eq_bind, Option.bind_some, he, htarget, hkind]
  rfl

/-- The plain graph concludes the same. -/
theorem Sound.concludeWalk_toGraph (hstored : g.Stores places steps) {last : Relation S}
    (hlast : steps.getLast? = some last) :
    g.toGraph.concludeWalk entity (steps.map Relation.toRecord) =
      some (.derived entity last.target last.kind (geometricMean (steps.map Relation.confidence))
        (Graph.walkProperties (steps.map Relation.toRecord))) := by
  have htarget : g.toGraph.entity? last.target.id = some last.target := by
    obtain ⟨-, e, -, -, -, htarget⟩ := h.head?_reverse hstored hlast
    rw [h.entity?_toGraph, entity?, h.place?_of_entityAt? htarget, Option.bind_some, htarget]
  rw [Graph.concludeWalk, List.getLast?_map, hlast, walkConfidence_map_toRecord]
  exact congrArg (Option.bind · _) htarget

variable (hwalk : g.IsWalk start hops places steps)
include hwalk

theorem Sound.isSome_concludeWalk_iff : (g.concludeWalk entity floor places.reverse).isSome ↔
    floor ≤ geometricMean (steps.map Relation.confidence) := by
  obtain ⟨last, hlast⟩ := hwalk.exists_last
  rw [h.concludeWalk_eq hwalk.stored hlast]
  split
  · rename_i hfloor
    exact ⟨fun _ => hfloor, fun _ => rfl⟩
  · rename_i hfloor
    exact ⟨nofun, fun hle => absurd hle hfloor⟩

theorem Sound.concludes (hentity : g.entity? start = some entity) {r : Relation S}
    (hr : g.concludeWalk entity floor places.reverse = some r) : g.Concludes start steps r := by
  obtain ⟨last, hlast⟩ := hwalk.exists_last
  rw [h.concludeWalk_eq hwalk.stored hlast] at hr
  split at hr
  · obtain rfl := Option.some.inj hr
    refine ⟨hentity, ?_, ?_, rfl, rfl, rfl, ?_, ?_⟩
    · rw [hlast]
      rfl
    · rw [hlast]
      rfl
    · exact (Graph.get?_walkProperties_length _).trans (by rw [List.length_map])
    · refine (Graph.get?_walkProperties _).trans ?_
      rw [← List.map_dropLast, List.map_map]
      rfl
  · cases hr

end Conclusion

/-! ### The search -/

/-- **The search finds what the trails yield**, in the same order. -/
theorem found_walkPlan (g : IndexedGraph S) (entity : Entity S) (floor : S) (node : Nat)
    {hops : Nat} (hhops : hops ≠ 0) :
    ((g.walkPlan entity hops floor).run (g.walkStart node)).found =
      (g.trailsAt hops [node] node).filterMap fun places =>
        g.concludeWalk entity floor places.reverse := by
  have hdepth : hops - 1 - 0 + 1 = hops := Nat.sub_add_cancel (Nat.one_le_iff_ne_zero.2 hhops)
  rw [DepthFirst.Plan.found_run]
  change [] ++ ((g.walkPlan entity hops floor).yields (hops - 1 - 0 + 1) [node] []
    ((g.walkPlan entity hops floor).next node) ++ []) = _
  rw [DepthFirst.Plan.yields_eq_trails fun _ => rfl, hdepth, List.nil_append, List.append_nil]
  simp only [List.append_nil]
  rfl

variable {start : String} {hops : Nat} {floor : S} {node : Nat} {entity : Entity S}

/-- What is found when there is room. -/
theorem explore?_eq_trails (hplace : g.place? start = some node)
    (hentity : g.entityAt? node = some entity) : g.explore? start hops floor =
      if Graph.RoomFor hops then
        some ((g.trailsAt hops [node] node).filterMap fun places =>
          g.concludeWalk entity floor places.reverse)
      else none := by
  rw [explore?, hplace]
  simp only [hentity]
  split
  · rename_i hhops
    rw [hhops, if_pos (show Graph.RoomFor 0 from Nat.zero_le _)]
    rfl
  · rename_i hhops
    rw [g.found_walkPlan entity floor node hhops]

/-- The walks of the plain graph yield what the trails do. -/
theorem Sound.explore_toGraph (h : g.Sound) (hplace : g.place? start = some node)
    (hentity : g.entityAt? node = some entity) : g.toGraph.explore start hops floor =
      (g.trailsAt hops [node] node).filterMap fun places =>
        g.concludeWalk entity floor places.reverse := by
  obtain ⟨hnode, hname⟩ := h.nameAt_of_place? hplace
  have hwalks : g.toGraph.walks start hops = (g.trailsAt hops [node] node).map g.recordsAt := by
    rw [h.map_recordsAt_trailsAt (List.forall_mem_singleton.2 hnode) hnode, List.map_singleton,
      hname]
    rfl
  rw [Graph.explore, h.entity?_toGraph, entity?, hplace, Option.bind_some, hentity]
  simp only [hwalks]
  rw [List.filter_map, List.filterMap_map, List.filterMap_filter]
  refine List.filterMap_congr fun places hplaces => ?_
  obtain ⟨steps, hwalk⟩ := (h.mem_trailsAt_singleton_iff hplace).1 hplaces
  obtain ⟨last, hlast⟩ := hwalk.exists_last
  rw [Function.comp_apply, Function.comp_apply, h.recordsAt_eq hwalk.stored,
    walkConfidence_map_toRecord, h.concludeWalk_toGraph hwalk.stored hlast,
    h.concludeWalk_eq hwalk.stored hlast]
  simp only [decide_eq_true_eq]

/-- **The plain graph is searched with the same outcome.** -/
theorem Sound.explore?_eq (h : g.Sound) (start : String) (hops : Nat) (floor : S) :
    g.explore? start hops floor = g.toGraph.explore? start hops floor := by
  rw [Graph.explore?, h.hasEntity_toGraph, hasEntity, Table.contains, ← place?]
  rcases hplace : g.place? start with _ | node
  · rw [Graph.explore, h.entity?_toGraph, entity?, explore?, hplace]
    rfl
  obtain ⟨entity, hentity, -⟩ := h.entityAt?_of_place? hplace
  rw [explore?_eq_trails hplace hentity, h.explore_toGraph hplace hentity]
  by_cases hroom : Graph.RoomFor hops <;> simp [hroom]

/-- **Only for lack of room is there no outcome.** -/
theorem Sound.explore?_eq_none_iff (h : g.Sound) : g.explore? start hops floor = none ↔
    g.hasEntity start = true ∧ (2 ^ 63 - 1) / 4 < hops := by
  rw [h.explore?_eq, Graph.explore?_eq_none_iff, h.hasEntity_toGraph]

theorem found_eq_trails (hplace : g.place? start = some node)
    (hentity : g.entityAt? node = some entity) {found : List (Relation S)}
    (hfound : g.explore? start hops floor = some found) :
    found = (g.trailsAt hops [node] node).filterMap fun places =>
      g.concludeWalk entity floor places.reverse := by
  rw [explore?_eq_trails hplace hentity] at hfound
  split at hfound
  · exact (Option.some.inj hfound).symm
  · cases hfound

/-- The search starts aligned. -/
theorem aligned_walkStart (g : IndexedGraph S) (entity : Entity S) (hops : Nat) (floor : S)
    (node : Nat) : (g.walkPlan entity hops floor).Aligned [node] (g.walkStart node) where
  visited := rfl
  nodup := List.nodup_singleton node
  length_le := Nat.zero_le _

/-- **The walks and what they yield.** -/
theorem Sound.exists_walks (h : g.Sound) {found : List (Relation S)}
    (hfound : g.explore? start hops floor = some found) :
    ∃ walks : List (List Nat), walks.Pairwise (· < ·) ∧
      (∀ places, places ∈ walks ↔ ∃ steps, g.IsWalk start hops places steps ∧
        floor ≤ geometricMean (steps.map Relation.confidence)) ∧
      List.Forall₂ (fun places r => ∃ steps, g.IsWalk start hops places steps ∧
        g.Concludes start steps r) walks found := by
  rcases hplace : g.place? start with _ | node
  · rw [explore?, hplace] at hfound
    obtain rfl := Option.some.inj hfound
    refine ⟨[], .nil, fun places => ⟨nofun, ?_⟩, .nil⟩
    rintro ⟨steps, hwalk, -⟩
    obtain ⟨node, hnode⟩ := h.place?_of_isWalk hwalk
    cases hplace.symm.trans hnode
  obtain ⟨entity, hentity, -⟩ := h.entityAt?_of_place? hplace
  refine ⟨(g.trailsAt hops [node] node).filter fun places =>
    (g.concludeWalk entity floor places.reverse).isSome, ?_, fun places => ?_, ?_⟩
  · exact (DepthFirst.pairwise_trails h.pairwise_departures).filter _
  · rw [List.mem_filter, h.mem_trailsAt_singleton_iff hplace]
    constructor
    · rintro ⟨⟨steps, hwalk⟩, hsome⟩
      exact ⟨steps, hwalk, (h.isSome_concludeWalk_iff hwalk).1 hsome⟩
    · rintro ⟨steps, hwalk, hfloor⟩
      exact ⟨⟨steps, hwalk⟩, (h.isSome_concludeWalk_iff hwalk).2 hfloor⟩
  · have hstart : g.entity? start = some entity := by
      rw [entity?, hplace]
      exact hentity
    have hwalks : ∀ places ∈ (g.trailsAt hops [node] node).filter fun places =>
        (g.concludeWalk entity floor places.reverse).isSome,
          ∃ steps, g.IsWalk start hops places steps := fun places hplaces =>
      (h.mem_trailsAt_singleton_iff hplace).1 (List.mem_filter.1 hplaces).1
    rw [found_eq_trails hplace hentity hfound]
    refine ((List.forall₂_and_left _ _).2 ⟨hwalks, forall₂_filterMap _ _⟩).imp ?_
    rintro places r ⟨⟨steps, hwalk⟩, hr⟩
    exact ⟨steps, hwalk, h.concludes hwalk hstart hr⟩

/-- **The search for walks is exact**, in every graph that grew by some calls. The program stops
without an outcome exactly when there is an entity to start from and `hops` is so large that room
for so many edges, of four bytes each, cannot be asked for. A graph without indices that grew by the
same calls has the same outcome.

Otherwise there is a list of walks, each given by the places of its edges, which ascends in the
lexicographic order: it goes by the first edge that differs, a walk comes before its extensions, and
none comes up twice. It has all walks of at least one and at most `hops` edges from the start that
come to no entity twice and whose confidences have a mean that reaches the floor, whatever the means
along their beginnings are. Parallel edges have different places and make different walks. Each of
these walks yields one relation, and these are what is found, in the order of the walks.

Unless there is no entity to start from or no edge allowed, this is found by taking steps until
there is none to take. On the way the visited nodes are the start and those that the edges of the
path lead to, none of them twice, and the path has room for one more edge. -/
theorem explore?_exact (calls : List (Graph.Insertion S)) (start : String) (hops : Nat)
    (floor : S) :
    let g := grow empty calls
    g.explore? start hops floor = (Graph.grow Graph.empty calls).explore? start hops floor ∧
    (g.explore? start hops floor = none ↔
      g.hasEntity start = true ∧ (2 ^ 63 - 1) / 4 < hops) ∧
    ∀ found, g.explore? start hops floor = some found →
      (∃ walks : List (List Nat), walks.Pairwise (· < ·) ∧
        (∀ places, places ∈ walks ↔ ∃ steps, g.IsWalk start hops places steps ∧
          floor ≤ geometricMean (steps.map Relation.confidence)) ∧
        List.Forall₂ (fun places r => ∃ steps, g.IsWalk start hops places steps ∧
          g.Concludes start steps r) walks found) ∧
      ∀ node entity, g.place? start = some node → g.entityAt? node = some entity → hops ≠ 0 →
        let p := g.walkPlan entity hops floor
        (∃ final, Relation.ReflTransGen p.Leads (g.walkStart node) final ∧
          p.step final = none ∧ found = final.found) ∧
        ∀ s, Relation.ReflTransGen p.Leads (g.walkStart node) s →
          s.path.length < hops ∧ s.visited = g.targets s.path ++ [node] ∧ s.visited.Nodup := by
  intro g
  obtain ⟨hsound, hgraph⟩ := sound_grow calls
  refine ⟨hgraph ▸ hsound.explore?_eq start hops floor, hsound.explore?_eq_none_iff,
    fun found hfound => ⟨hsound.exists_walks hfound, fun node entity hplace hentity hhops => ?_⟩⟩
  intro p
  have hpositive : 0 < hops := Nat.pos_of_ne_zero hhops
  obtain ⟨hreaches, hend⟩ := p.reaches_run (g.walkStart node)
  refine ⟨⟨_, hreaches, hend, ?_⟩, fun s hs => ?_⟩
  · rw [found_eq_trails hplace hentity hfound]
    exact (g.found_walkPlan entity floor node hhops).symm
  · obtain ⟨hvisited, hnodup, hlength⟩ := (aligned_walkStart g entity hops floor node).reaches hs
    exact ⟨Nat.lt_of_le_pred hpositive hlength, hvisited, hnodup⟩

/-! ### Walks and paths -/

variable {target : String}

/-- **The search for walks and the search for paths agree**, in every graph that grew by some calls
and between two different identifiers. A path is listed once. The search for walks sets room aside,
so it stops the program for some numbers of hops for which the paths are found. Whenever it has an
outcome, the walks to the target follow exactly the simple paths, whatever the confidences along
them, and there are as many walks along a path as its steps can be chosen among parallel
relations. -/
theorem explore?_agrees_simplePaths
    (hmean : ∀ xs : List S, (∀ x ∈ xs, Scalar.InUnit x) → (0.0 : S) ≤ geometricMean xs)
    (calls : List (Graph.Insertion S)) (hends : start ≠ target) (hops : Nat) :
    let g := grow empty calls
    let paths := g.simplePaths start target hops
    paths.Nodup ∧
    (g.explore? start hops 0.0 = none ↔ g.hasEntity start = true ∧ (2 ^ 63 - 1) / 4 < hops) ∧
    ∀ relations, g.explore? start hops 0.0 = some relations →
      let found := (relations.filter fun r => r.target.id = target).map Relation.nodeSequence?
      (∀ sequence, sequence ∈ found ↔ ∃ path ∈ paths, sequence = some path) ∧
      ∀ path ∈ paths, found.count (some path) =
        ((Path.pairs path).map fun step => (g.between step.1 step.2).length).prod := by
  intro g paths
  obtain ⟨hsound, hgraph⟩ := sound_grow calls
  obtain ⟨hnodup, hsame, hcount⟩ := Graph.explore_agrees_simplePaths hmean calls hends hops
  have hpaths : paths = (Graph.grow Graph.empty calls).simplePaths start target hops :=
    hgraph ▸ hsound.simplePaths_eq start target hops
  refine ⟨hpaths ▸ hnodup, hsound.explore?_eq_none_iff, fun relations hrelations => ?_⟩
  have hplain : relations = (Graph.grow Graph.empty calls).explore start hops 0.0 := by
    rw [← hgraph]
    exact Graph.eq_explore_of_explore? (hsound.explore?_eq .. ▸ hrelations)
  have hbetween : ∀ source target, g.between source target =
      (Graph.grow Graph.empty calls).between source target := fun source target => by
    rw [hsound.between_eq, ← hgraph, Graph.between_eq, hsound.relations_toGraph]
  rw [hpaths, hplain]
  refine ⟨hsame, fun path hpath => (hcount path hpath).trans ?_⟩
  simp only [hbetween]

/-- Two ways from one end to the other, a direct one, and one that begins with two parallel
relations. -/
def parallelRoutes : List (Graph.Insertion Fraction) :=
  let entity (id : String) : Entity Fraction := ⟨id, id, "concept", .empty⟩
  let edge (source kind target : String) : Graph.Insertion Fraction :=
    .relation ⟨entity source, entity target, kind, 1.0, .empty, none⟩
  [edge "A" "knows" "B", edge "A" "likes" "B", edge "B" "knows" "C", edge "A" "knows" "C"]

/-- Two walks go along the longer way, and with the greatest number of hops the program stops, while
the paths are found. -/
theorem explore?_agrees_simplePaths_parallelRoutes :
    let g := grow empty parallelRoutes
    let most := 2 ^ 64 - 1
    "A" ≠ "C" ∧ (∃ relations, g.explore? "A" 2 0.0 = some relations ∧
      let found := (relations.filter fun r => r.target.id = "C").map Relation.nodeSequence?
      (∀ sequence, sequence ∈ found ↔
        ∃ path ∈ g.simplePaths "A" "C" 2, sequence = some path) ∧
      g.simplePaths "A" "C" 2 = [["A", "B", "C"], ["A", "C"]] ∧
      found.count (some ["A", "B", "C"]) = 2) ∧
    g.explore? "A" most 0.0 = none ∧ (g.simplePaths "A" "C" most).Nodup := by
  intro g most
  have hends : "A" ≠ "C" := by decide
  have hmean : ∀ xs : List Fraction, (∀ x ∈ xs, Scalar.InUnit x) →
      (0.0 : Fraction) ≤ geometricMean xs :=
    fun xs hxs => (ExactScalar.inUnit_geometricMean Fraction.rootsInUnit hxs).1
  obtain ⟨hsound, hgraph⟩ := sound_grow parallelRoutes
  have hpaths : g.simplePaths "A" "C" 2 = [["A", "B", "C"], ["A", "C"]] := by
    rw [hsound.simplePaths_eq, hgraph]
    with_unfolding_all rfl
  obtain ⟨-, hroom, hsome⟩ := explore?_agrees_simplePaths hmean parallelRoutes hends 2
  obtain ⟨hnodup, hstop, -⟩ := explore?_agrees_simplePaths hmean parallelRoutes hends most
  refine ⟨hends, ?_, hstop.2 ⟨by with_unfolding_all rfl, by decide⟩, hnodup⟩
  obtain ⟨relations, hrelations⟩ : ∃ relations, g.explore? "A" 2 0.0 = some relations :=
    Option.ne_none_iff_exists'.1 fun hnone => absurd (hroom.1 hnone).2 (by decide)
  obtain ⟨hsame, hcount⟩ := hsome relations hrelations
  refine ⟨relations, hrelations, hsame, hpaths, (hcount _ ?_).trans ?_⟩
  · exact hpaths ▸ List.mem_cons_self
  · with_unfolding_all rfl

end IndexedGraph

end GraphReasoner
