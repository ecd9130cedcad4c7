import GraphReasoner.Graph.NeighborhoodSearch
import GraphReasoner.Proofs.Graph.BreadthFirst
import GraphReasoner.Proofs.Graph.Distance

/-!
# The search for a neighborhood is exact

A graph with indices is searched with a queue, the plain graph level by level, and both find the
same (`GraphReasoner.IndexedGraph.Sound.neighborhood_eq`). While the nodes of one level are taken
from the queue, those discovered from them gather behind the level, each with the edge that led to
it, and they are named like what the plain graph finds from the level
(`GraphReasoner.IndexedGraph.Named`). The search drops an edge that it followed before, but there is
no such edge among those that lead to a new node, because both ends of an edge that was followed are
marked.

* `GraphReasoner.IndexedGraph.neighborhood_exact` – what a search finds, in terms of distances.
-/

namespace GraphReasoner

namespace IndexedGraph

open BreadthFirst (State Plan)

variable {S : Type} {g : IndexedGraph S}

/-! ### Names of what is discovered -/

/-- The record of the edge at a place. -/
def recordAt? (g : IndexedGraph S) (place : Nat) : Option (Record S) :=
  (g.relationAt? place).map Relation.toRecord

/-- **A node and an edge are named** by an identifier and a record. -/
def Named (g : IndexedGraph S) (f : Nat × Nat) (f' : String × Record S) : Prop :=
  f.1 < g.nodes.size ∧ g.nameAt f.1 = f'.1 ∧ g.recordAt? f.2 = some f'.2

section Named

variable {found : List (Nat × Nat)} {names : List (String × Record S)}

theorem lt_of_named (hnamed : List.Forall₂ g.Named found names) :
    ∀ v ∈ found.map Prod.fst, v < g.nodes.size := by
  induction hnamed with
  | nil => exact nofun
  | cons hfirst _ ih => exact List.forall_mem_cons.2 ⟨hfirst.1, ih⟩

theorem map_fst_of_named (hnamed : List.Forall₂ g.Named found names) :
    (found.map Prod.fst).map g.nameAt = names.map Prod.fst := by
  induction hnamed with
  | nil => rfl
  | cons hfirst _ ih => rw [List.map_cons, List.map_cons, List.map_cons, ih, hfirst.2.1]

theorem Sound.mem_of_named (h : g.Sound) (hnamed : List.Forall₂ g.Named found names) {w : Nat}
    (hw : w < g.nodes.size) : g.nameAt w ∈ names.map Prod.fst ↔ w ∈ found.map Prod.fst := by
  rw [← map_fst_of_named hnamed, h.mem_map_nameAt_iff (lt_of_named hnamed) hw]

end Named

/-- **A search shows some levels** of the plain graph when its discoveries are named like what the
levels list, and its depth grows by the number of levels. -/
def Shows (g : IndexedGraph S) (base final : State Nat Nat)
    (levels : List (List (String × Record S))) : Prop :=
  ∃ found, List.Forall₂ g.Named found levels.flatten ∧
    final.discovered = base.discovered ++ found.map Prod.fst ∧
    final.followed = base.followed ++ found.map Prod.snd ∧
    final.depth = base.depth + levels.length

/-! ### The edges at a node -/

theorem ends?_of_edge {kinds : List String} {depth place : Nat} {e : Edge S}
    (he : g.edges[place]? = some e) :
    (g.neighborhoodPlan kinds depth).ends? place = some (e.source, e.target) :=
  congrArg (Option.map fun e : Edge S => (e.source, e.target)) he

namespace Sound

variable (h : g.Sound)
include h

theorem filterMap_recordAt?_leavingAt {v : Nat} (hv : v < g.nodes.size) :
    (g.leavingAt v).filterMap g.recordAt? = g.toGraph.leaving (g.nameAt v) := by
  have hrelations : (placesOf g.edges fun e => e.source == v).filterMap g.relationAt? =
      g.relations.filter fun r => r.source.id == g.nameAt v :=
    h.filterMap_placesOf fun _ _ _ he hr =>
      h.id_beq (h.relationAt?_ends he hr).1 (h.place?_nameAt hv)
  rw [h.leaving, List.filterMap_reverse, Graph.leaving, toGraph, List.filter_map]
  exact congrArg List.reverse (List.map_filterMap.symm.trans (congrArg _ hrelations))

theorem filterMap_recordAt?_enteringAt {v : Nat} (hv : v < g.nodes.size) :
    (g.enteringAt v).filterMap g.recordAt? = g.toGraph.entering (g.nameAt v) := by
  have hrelations : (placesOf g.edges fun e => e.target == v).filterMap g.relationAt? =
      g.relations.filter fun r => r.target.id == g.nameAt v :=
    h.filterMap_placesOf fun _ _ _ he hr =>
      h.id_beq (h.relationAt?_ends he hr).2.1 (h.place?_nameAt hv)
  rw [h.entering, List.filterMap_reverse, Graph.entering, toGraph, List.filter_map]
  exact congrArg List.reverse (List.map_filterMap.symm.trans (congrArg _ hrelations))

/-- **The records of the edges at a node** are those that touch its name, in the same order. -/
theorem filterMap_recordAt?_edgesAt {v : Nat} (hv : v < g.nodes.size) (kinds : List String) :
    (g.edgesAt kinds v).filterMap g.recordAt? = g.toGraph.touching kinds (g.nameAt v) := by
  rw [edgesAt, List.filterMap_filter, Graph.touching, ← h.filterMap_recordAt?_leavingAt hv,
    ← h.filterMap_recordAt?_enteringAt hv, ← List.filterMap_append, List.filter_filterMap]
  refine List.filterMap_congr fun place _ => ?_
  rw [recordAt?]
  rcases hr : g.relationAt? place with _ | r
  · simp
  · obtain ⟨e, s, t, he, -, -, rfl⟩ := relationAt?_eq_some_iff.1 hr
    rw [he, Option.any_some, Option.map_some, Option.filter_some]
    rfl

theorem ends_of_mem_edgesAt {kinds : List String} {v place : Nat}
    (hplace : place ∈ g.edgesAt kinds v) :
    ∃ e, g.edges[place]? = some e ∧ (e.source = v ∨ e.target = v) := by
  rcases List.mem_append.1 (List.mem_filter.1 hplace).1 with hin | hin
  · rw [h.leaving, List.mem_reverse, mem_placesOf] at hin
    obtain ⟨e, he, hv⟩ := hin
    exact ⟨e, he, Or.inl (beq_iff_eq.1 hv)⟩
  · rw [h.entering, List.mem_reverse, mem_placesOf] at hin
    obtain ⟨e, he, hv⟩ := hin
    exact ⟨e, he, Or.inr (beq_iff_eq.1 hv)⟩

theorem forall₂_edgesAt {v : Nat} (hv : v < g.nodes.size) (kinds : List String) :
    List.Forall₂ (fun place r => g.recordAt? place = some r) (g.edgesAt kinds v)
      (g.toGraph.touching kinds (g.nameAt v)) := by
  have hall := forall₂_filterMap g.recordAt? (g.edgesAt kinds v)
  rw [h.filterMap_recordAt?_edgesAt hv, List.filter_eq_self.2 fun place hplace => ?_] at hall
  · exact hall
  · obtain ⟨e, he, -⟩ := h.ends_of_mem_edgesAt hplace
    obtain ⟨s, t, -, -, hr⟩ := h.exists_relationAt? he
    rw [recordAt?, hr]
    rfl

/-- **An edge leads to the node** whose name is the other end of its record. -/
theorem other?_eq (kinds : List String) (depth : Nat) {v place : Nat} (hv : v < g.nodes.size)
    {e : Edge S} (he : g.edges[place]? = some e) {r : Record S}
    (hr : g.recordAt? place = some r) :
    ∃ w, (g.neighborhoodPlan kinds depth).other? v place = some w ∧ w < g.nodes.size ∧
      g.nameAt w = Graph.otherEnd (g.nameAt v) r := by
  obtain ⟨hs, ht⟩ := h.ends place e he
  obtain ⟨s, t, hsource, htarget, hrel⟩ := h.exists_relationAt? he
  rw [recordAt?, hrel, Option.map_some, Option.some.injEq] at hr
  subst hr
  have hsame : (e.between s t).toRecord.source = g.nameAt v ↔ e.source = v := by
    rw [Relation.toRecord, Edge.between, ← nameAt_of_entityAt? hsource]
    exact ⟨h.nameAt_inj hs hv, congrArg g.nameAt⟩
  have hother : (g.neighborhoodPlan kinds depth).other? v place =
      some (if e.source = v then e.target else e.source) := by
    rw [Plan.other?, ends?_of_edge he]
    rfl
  refine ⟨_, hother, ?_, ?_⟩
  · split
    · exact ht
    · exact hs
  · rw [Graph.otherEnd, apply_ite g.nameAt, nameAt_of_entityAt? hsource,
      nameAt_of_entityAt? htarget]
    simp only [beq_iff_eq, hsame]
    rfl

/-! ### Levels of the search -/

variable {kinds : List String} {depth : Nat} {d : Nat}

/-- **The edges at a node** lead to discoveries that are named like those of the plain graph. -/
theorem foldl_follow (base : State Nat Nat) {visited : List String} {v : Nat}
    (hv : v < g.nodes.size) (hnode : v ∈ base.visited)
    (hvisited : ∀ w < g.nodes.size, g.nameAt w ∈ visited ↔ w ∈ base.visited)
    {places : List Nat} {records : List (Record S)}
    (hrecords : List.Forall₂ (fun place r => g.recordAt? place = some r) places records)
    (hplaces : ∀ place ∈ places, ∃ e, g.edges[place]? = some e ∧ (e.source = v ∨ e.target = v))
    {found : List (Nat × Nat)} {names : List (String × Record S)}
    (hnamed : List.Forall₂ g.Named found names)
    (hmarked : (g.neighborhoodPlan kinds depth).Marked (base.add (d + 1) found)) :
    ∃ more, places.foldl ((g.neighborhoodPlan kinds depth).follow v d) (base.add (d + 1) found) =
        base.add (d + 1) more ∧
      (g.neighborhoodPlan kinds depth).Marked (base.add (d + 1) more) ∧
      List.Forall₂ g.Named more (records.foldl (Graph.discover visited (g.nameAt v)) names) := by
  induction hrecords generalizing found names with
  | nil => exact ⟨found, rfl, hmarked, hnamed⟩
  | @cons place r places records hr _ ih =>
    obtain ⟨⟨e, he, hat⟩, hplaces⟩ := List.forall_mem_cons.1 hplaces
    obtain ⟨w, hother, hw, hname⟩ := h.other?_eq kinds depth hv he hr
    have hseen : w ∈ (base.add (d + 1) found).visited ↔
        Graph.otherEnd (g.nameAt v) r ∈ visited ∨
          Graph.otherEnd (g.nameAt v) r ∈ names.map Prod.fst := by
      rw [← hname, hvisited w hw, h.mem_of_named hnamed hw, State.mem_visited_add, or_comm]
    rw [List.foldl_cons, List.foldl_cons, Graph.discover]
    by_cases hold : w ∈ (base.add (d + 1) found).visited
    · rw [Plan.follow_of_mem hother hold, if_pos (hseen.1 hold)]
      exact ih hplaces hnamed hmarked
    · obtain ⟨hfollow, hmarked'⟩ := hmarked.follow_eq d (ends?_of_edge he)
        (List.mem_append_right _ hnode) hat hother hold
      rw [hfollow, if_neg (mt hseen.2 hold)]
      rw [State.add_add] at hmarked' ⊢
      refine ih hplaces (List.rel_append hnamed ?_) hmarked'
      exact .cons ⟨hw, hname, hr⟩ .nil

/-- **From the nodes of a level** the search discovers what the plain graph finds from it. -/
theorem run_level (hreach : d < depth) {base : State Nat Nat} {visited : List String}
    (hvisited : ∀ w < g.nodes.size, g.nameAt w ∈ visited ↔ w ∈ base.visited) {level : List Nat}
    (hlevel : ∀ v ∈ level, v < g.nodes.size ∧ v ∈ base.visited) {found : List (Nat × Nat)}
    {names : List (String × Record S)} (hnamed : List.Forall₂ g.Named found names)
    (hmarked : (g.neighborhoodPlan kinds depth).Marked (base.add (d + 1) found)) :
    ∃ more, (g.neighborhoodPlan kinds depth).run
          ({ base with queue := level.map fun v => (v, d) }.add (d + 1) found) =
        (g.neighborhoodPlan kinds depth).run ({ base with queue := [] }.add (d + 1) more) ∧
      (g.neighborhoodPlan kinds depth).Marked (base.add (d + 1) more) ∧
      List.Forall₂ g.Named more ((level.map g.nameAt).foldl (fun found id =>
        found ++ g.toGraph.discoverFrom kinds (found.map Prod.fst ++ visited) id) names) := by
  induction level generalizing found names with
  | nil => exact ⟨found, rfl, hmarked, hnamed⟩
  | cons v level ih =>
    obtain ⟨⟨hv, hnode⟩, hlevel⟩ := List.forall_mem_cons.1 hlevel
    -- the state without the first node of the level
    let s := { base with queue := level.map fun v => (v, d) }.add (d + 1) found
    have hseen : ∀ w < g.nodes.size,
        g.nameAt w ∈ names.map Prod.fst ++ visited ↔ w ∈ s.visited := fun w hw => by
      have hs : w ∈ s.visited ↔ w ∈ found.map Prod.fst ∨ w ∈ base.visited :=
        State.mem_visited_add
      rw [List.mem_append, h.mem_of_named hnamed hw, hvisited w hw, hs]
    obtain ⟨more, hfold, hmarked', hmore⟩ := h.foldl_follow s hv
      (List.mem_append_right _ hnode) hseen (h.forall₂_edgesAt hv kinds)
      (fun place hplace => h.ends_of_mem_edgesAt hplace) .nil (by
        rw [State.add_nil]
        exact hmarked)
    rw [State.add_nil, State.add_add] at hfold
    rw [State.add_add] at hmarked'
    have hstep : (g.neighborhoodPlan kinds depth).Leads
        ({ base with queue := (v :: level).map fun v => (v, d) }.add (d + 1) found)
        ({ base with queue := level.map fun v => (v, d) }.add (d + 1) (found ++ more)) := by
      rw [← hfold]
      exact Plan.step_of_lt rfl hreach
    rw [← Graph.discoverFrom_eq] at hmore
    rw [Plan.run_of_leads hstep, List.map_cons, List.foldl_cons]
    exact ih hlevel (List.rel_append hnamed hmore) hmarked'

/-- **Level by level** the search discovers what the plain graph does. -/
theorem shows_run_levels {steps : Nat} (hdepth : d + steps = depth) {base : State Nat Nat}
    (hbase : base.depth = d) {visited : List String}
    (hvisited : ∀ w < g.nodes.size, g.nameAt w ∈ visited ↔ w ∈ base.visited) {level : List Nat}
    (hlevel : ∀ v ∈ level, v < g.nodes.size ∧ v ∈ base.visited)
    (hmarked : (g.neighborhoodPlan kinds depth).Marked base) :
    g.Shows base
      ((g.neighborhoodPlan kinds depth).run { base with queue := level.map fun v => (v, d) })
      (g.toGraph.levels kinds steps visited (level.map g.nameAt)) := by
  induction steps generalizing d base visited level with
  | zero =>
    have hreach : (g.neighborhoodPlan kinds depth).reach ≤ d := Nat.le_of_eq hdepth.symm
    rw [Plan.run_of_le hreach, Graph.levels]
    exact ⟨[], .nil, (List.append_nil _).symm, (List.append_nil _).symm, rfl⟩
  | succ steps ih =>
    have hreach : d < depth := by omega
    obtain ⟨more, hrun, hmarked', hnamed⟩ := h.run_level hreach hvisited hlevel .nil (by
      rw [State.add_nil]
      exact hmarked)
    change List.Forall₂ g.Named more
      (g.toGraph.discoverLevel kinds visited (level.map g.nameAt)) at hnamed
    rw [State.add_nil] at hrun
    rw [hrun, Graph.levels]
    split
    · rename_i hnone
      rw [hnone, List.forall₂_nil_right_iff] at hnamed
      rw [hnamed, State.add_nil, Plan.run_of_end (Plan.step_of_nil rfl)]
      exact ⟨[], .nil, (List.append_nil _).symm, (List.append_nil _).symm, rfl⟩
    · rename_i first names hfound
      rw [hfound] at hnamed
      -- what was discovered is the next level
      have hqueue : { base with queue := [] }.add (d + 1) more =
          { base.add (d + 1) more with
            queue := (more.map Prod.fst).map fun v => (v, d + 1) } := by
        rw [List.map_map]
        rfl
      have hne : more ≠ [] := fun hnil => by
        rw [hnil] at hnamed
        cases hnamed
      have hdeeper : (base.add (d + 1) more).depth = base.depth + 1 := by
        rw [State.add, if_neg hne, hbase]
        exact max_eq_right (Nat.le_succ d)
      have hnext : g.Shows (base.add (d + 1) more)
          ((g.neighborhoodPlan kinds depth).run
            { base.add (d + 1) more with queue := (more.map Prod.fst).map fun v => (v, d + 1) })
          (g.toGraph.levels kinds steps ((first :: names).map Prod.fst ++ visited)
            ((more.map Prod.fst).map g.nameAt)) := by
        refine ih (by omega) (by rw [hdeeper, hbase]) (fun w hw => ?_) (fun v hv => ?_) hmarked'
        · rw [List.mem_append, h.mem_of_named hnamed hw, hvisited w hw, State.mem_visited_add]
        · exact ⟨lt_of_named hnamed v hv, State.mem_visited_add.2 (Or.inl hv)⟩
      rw [map_fst_of_named hnamed] at hnext
      obtain ⟨rest, hrest, hdiscovered, hfollowed, hlength⟩ := hnext
      rw [hqueue]
      refine ⟨more ++ rest, List.rel_append hnamed hrest, ?_, ?_, ?_⟩
      · rw [hdiscovered, List.map_append, ← List.append_assoc]
        rfl
      · rw [hfollowed, List.map_append, ← List.append_assoc]
        rfl
      · rw [hlength, hdeeper, List.length_cons]
        omega

/-! ### Both graphs are searched with the same outcome -/

theorem map_nameAt_filterMap_place? (seeds : List String) :
    (seeds.filterMap g.place?).map g.nameAt = seeds.filter g.toGraph.hasEntity := by
  induction seeds with
  | nil => rfl
  | cons seed seeds ih =>
    have hentity : g.toGraph.hasEntity seed = (g.place? seed).isSome := h.hasEntity_toGraph seed
    rcases hplace : g.place? seed with _ | place
    · rw [hplace] at hentity
      rw [List.filterMap_cons_none hplace, List.filter_cons_of_neg (by simp [hentity]), ih]
    · rw [hplace] at hentity
      rw [List.filterMap_cons_some hplace, List.filter_cons_of_pos hentity, List.map_cons, ih,
        (h.nameAt_of_place? hplace).2]

/-- The relation of a named edge is that of its record. -/
theorem relationAt?_of_named {f : Nat × Nat} {f' : String × Record S} (hnamed : g.Named f f') :
    g.relationAt? f.2 = g.toGraph.resolve? f'.2 := by
  obtain ⟨-, -, hrecord⟩ := hnamed
  obtain ⟨r, hr, hsame⟩ := Option.map_eq_some_iff.1 hrecord
  rw [hr, ← hsame, h.resolve?_toRecord (h.mem_relations.2 ⟨f.2, hr⟩)]

/-- **The search with a queue** finds what the search by levels does. -/
theorem neighborhood_eq (seeds : List String) (depth : Nat) (kinds : List String) :
    g.neighborhood seeds depth kinds = g.toGraph.neighborhood seeds depth kinds := by
  have hknown : ∀ v ∈ seeds.filterMap g.place?, v < g.nodes.size := fun v hv => by
    obtain ⟨seed, -, hplace⟩ := List.mem_filterMap.1 hv
    exact (h.nameAt_of_place? hplace).1
  have hshows : g.Shows (g.neighborhoodStart seeds)
      ((g.neighborhoodPlan kinds depth).run (g.neighborhoodStart seeds))
      (g.toGraph.levels kinds depth (seeds.filter g.toGraph.hasEntity)
        (seeds.filter g.toGraph.hasEntity)) := by
    rw [← h.map_nameAt_filterMap_place?]
    exact h.shows_run_levels (Nat.zero_add depth) rfl (fun w hw => h.mem_map_nameAt_iff hknown hw)
      (fun v hv => ⟨hknown v hv, hv⟩) nofun
  obtain ⟨found, hnamed, hdiscovered, hfollowed, hdepth⟩ := hshows
  have hids : (found.map Prod.fst).filterMap g.idAt? =
      (g.toGraph.levels kinds depth (seeds.filter g.toGraph.hasEntity)
        (seeds.filter g.toGraph.hasEntity)).flatten.map Prod.fst := by
    rw [List.filterMap_map]
    refine filterMap_eq_map_of_forall₂ (fun f f' hf => ?_) hnamed
    rw [Function.comp_apply, idAt?_eq hf.1, hf.2.1]
  have hrelations : (found.map Prod.snd).filterMap g.relationAt? =
      (g.toGraph.levels kinds depth (seeds.filter g.toGraph.hasEntity)
        (seeds.filter g.toGraph.hasEntity)).flatten.filterMap fun f => g.toGraph.resolve? f.2 := by
    rw [List.filterMap_map]
    exact filterMap_eq_of_forall₂ (fun f f' hf => h.relationAt?_of_named hf) hnamed
  rw [neighborhood, Graph.neighborhood]
  rw [hdiscovered, hfollowed, hdepth, ← hids, ← hrelations]
  simp only [neighborhoodStart, List.nil_append, Nat.zero_add]

end Sound

/-! ### The search is exact -/

/-- A search starts at one distance. -/
theorem inLevels_neighborhoodStart (g : IndexedGraph S) (seeds : List String) :
    (g.neighborhoodStart seeds).InLevels :=
  ⟨0, seeds.filterMap g.place?, [], (List.append_nil _).symm⟩

/-- **The search for a neighborhood is exact**, in every graph that can be grown, for any seeds,
known or not, any types and any depth. It discovers the nodes other than the seeds that are within
the depth of a seed, along relations of the allowed types in either direction, each once and the
nearer ones first. The relation found with a node is stored, and joins it to a seed or to a node
discovered before that is one step nearer. The depth that is reported is the greatest distance of a
node found.

The search takes steps until there is none to take, and all along its queue holds nodes of at most
two distances, which differ by one. The search of the plain graph by levels finds the same. -/
theorem neighborhood_exact [Scalar S] (calls : List (Graph.Insertion S)) (seeds : List String)
    (depth : ℕ) (kinds : List String) :
    let g := grow .empty calls
    let found := g.neighborhood seeds depth kinds
    let p := g.neighborhoodPlan kinds depth
    found.Exact g.relations kinds seeds depth ∧
    found = (Graph.grow .empty calls).neighborhood seeds depth kinds ∧
    (∃ final, Relation.ReflTransGen p.Leads (g.neighborhoodStart seeds) final ∧
      p.step final = none ∧ found.discovered = final.discovered.filterMap g.idAt? ∧
      found.relations = final.followed.filterMap g.relationAt? ∧ found.depth = final.depth) ∧
    ∀ s, Relation.ReflTransGen p.Leads (g.neighborhoodStart seeds) s → s.InLevels := by
  intro g found p
  obtain ⟨hsound, hgraph⟩ := sound_grow calls
  have hsame : found = (Graph.grow .empty calls).neighborhood seeds depth kinds := by
    rw [← hgraph]
    exact hsound.neighborhood_eq seeds depth kinds
  have hrelations : g.relations = (Graph.grow .empty calls).relations := by
    rw [← hgraph]
    exact hsound.relations_toGraph.symm
  obtain ⟨hreaches, hend⟩ := p.reaches_run (g.neighborhoodStart seeds)
  refine ⟨?_, hsame, ⟨_, hreaches, hend, rfl, rfl, rfl⟩, fun s hs => ?_⟩
  · rw [hsame, hrelations]
    exact (Graph.tells_grow calls).resolves.exact_neighborhood seeds depth kinds
  · exact (g.inLevels_neighborhoodStart seeds).reaches hs

end IndexedGraph

end GraphReasoner
