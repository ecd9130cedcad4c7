import GraphReasoner.Graph.PathSearch
import GraphReasoner.Proofs.Graph.DepthFirst
import Mathlib.Data.List.Sort

/-!
# The search for simple paths is exact

The search with a stack yields what the recursion of `GraphReasoner.Path.simplePaths` lists
(`GraphReasoner.Path.search_eq`), because neither goes on from the target and both take the next
nodes in ascending order. That a path is found if and only if it is simple and short enough is then
known of the recursion. Nothing is found twice because the paths ascend
(`GraphReasoner.Path.pairwise_search`): a bound on the number of equal paths is not needed.

In a graph with indices the nodes are places, in the plain graph they are identifiers. The searches
agree up to this naming (`GraphReasoner.IndexedGraph.Sound.simplePaths_eq`).
-/

namespace GraphReasoner

variable {S : Type}

namespace Path

open DepthFirst (Plan State trails)

/-! ### The nodes that come next -/

section Distinct

variable {a b v : Nat} {nodes rest : List Nat}

theorem eraseReps_loop (a : Nat) (rest done : List Nat) :
    List.eraseRepsBy.loop (· == ·) a rest done =
      done.reverse ++ List.eraseRepsBy.loop (· == ·) a rest [] := by
  induction rest generalizing a done with
  | nil => simp [List.eraseRepsBy.loop]
  | cons b rest ih =>
    rw [List.eraseRepsBy.loop, List.eraseRepsBy.loop]
    split
    · exact ih a done
    · rw [ih b (a :: done), ih b [a]]
      simp

theorem eraseReps_cons_cons : (a :: b :: rest).eraseReps =
    if a = b then (b :: rest).eraseReps else a :: (b :: rest).eraseReps := by
  by_cases h : a = b
  · subst h
    simp [List.eraseReps, List.eraseRepsBy, List.eraseRepsBy.loop]
  · have hloop : (a :: b :: rest).eraseReps = List.eraseRepsBy.loop (· == ·) b rest [a] := by
      simp [List.eraseReps, List.eraseRepsBy, List.eraseRepsBy.loop, beq_eq_false_iff_ne.2 h]
    rw [if_neg h, hloop, eraseReps_loop]
    rfl

theorem mem_eraseReps : v ∈ nodes.eraseReps ↔ v ∈ nodes := by
  induction nodes with
  | nil => exact Iff.rfl
  | cons a rest ih =>
    rcases rest with _ | ⟨b, rest⟩
    · exact Iff.rfl
    · rw [eraseReps_cons_cons]
      split
      · rename_i heq
        rw [ih, heq]
        simp
      · rw [List.mem_cons, ih, ← List.mem_cons]

/-- **Dropping repetitions of an ascending list** leaves every member once. -/
theorem pairwise_eraseReps (h : nodes.Pairwise (· ≤ ·)) :
    nodes.eraseReps.Pairwise (· < ·) := by
  induction nodes with
  | nil => exact List.Pairwise.nil
  | cons a rest ih =>
    obtain ⟨hfirst, hrest⟩ := List.pairwise_cons.1 h
    rcases rest with _ | ⟨b, rest⟩
    · exact List.pairwise_singleton _ a
    · rw [eraseReps_cons_cons]
      split
      · exact ih hrest
      · rename_i hne
        refine List.pairwise_cons.2 ⟨fun v hv => ?_, ih hrest⟩
        have hab : a < b := Nat.lt_of_le_of_ne (hfirst b List.mem_cons_self) hne
        rcases List.mem_cons.1 (mem_eraseReps.1 hv) with rfl | hin
        · exact hab
        · exact Nat.lt_of_lt_of_le hab ((List.pairwise_cons.1 hrest).1 v hin)

theorem mem_distinct : v ∈ distinct nodes ↔ v ∈ nodes := by
  rw [distinct, mem_eraseReps, List.mem_mergeSort]

theorem pairwise_distinct (nodes : List Nat) : (distinct nodes).Pairwise (· < ·) :=
  pairwise_eraseReps List.sortedLE_mergeSort.pairwise

end Distinct

/-! ### The search -/

section Search

variable {adjacent : Nat → List Nat} {source target hops : Nat}

/-- What a path yields when it comes to a node. -/
theorem emit_plan (v : Nat) (path : List Nat) : (plan adjacent target hops).emit (v :: path) =
    if v = target then some (path.reverse ++ [v]) else none := by
  simp [plan]

/-- **The search yields the ways to the target**, each behind the path so far. -/
theorem yields_plan (adjacent : Nat → List Nat) (target hops depth : Nat)
    (visited path : List Nat) (node : Nat) :
    (plan adjacent target hops).yields depth visited path (distinct (adjacent node)) =
      (ways (fun v => distinct (adjacent v)) target depth visited node).map
        (path.reverse ++ ·) := by
  induction depth generalizing visited path node with
  | zero => rfl
  | succ depth ih =>
    rw [Plan.yields, ways, List.map_flatMap]
    refine List.flatMap_congr fun v _ => ?_
    change (if v ∈ visited then [] else
      ((plan adjacent target hops).emit (v :: path)).toList ++
        if (v != target) = true then (plan adjacent target hops).yields depth (v :: visited)
          (v :: path) (distinct (adjacent v)) else []) = _
    split
    · rfl
    · rw [emit_plan, ih]
      by_cases htarget : v = target
      · simp [htarget]
      · simp [htarget, Function.comp_def]

/-- **The search finds the simple paths**, in the same order. -/
theorem search_eq (adjacent : Nat → List Nat) (source target hops : Nat) :
    search adjacent source target hops =
      simplePaths (fun v => distinct (adjacent v)) source target hops := by
  unfold search simplePaths
  by_cases hends : source = target
  · rw [if_pos (Or.inl hends), if_pos hends]
  rw [if_neg hends]
  rcases hops with _ | hops
  · rw [if_pos (Or.inr rfl)]
    rfl
  · rw [if_neg (by omega), Plan.found_run]
    change [] ++ ((plan adjacent target (hops + 1)).yields (hops + 1 - 1 + 1) [source] [source]
      (distinct (adjacent source)) ++ []) = _
    rw [yields_plan, List.nil_append, List.append_nil, Nat.add_sub_cancel]
    rfl

/-- **The paths come in lexicographic order.** -/
theorem pairwise_search : (search adjacent source target hops).Pairwise (· < ·) := by
  rw [search_eq]
  exact pairwise_simplePaths (fun v => pairwise_distinct (adjacent v)) source target hops

/-- **The search finds exactly the simple paths** of at least one and at most `hops` steps. -/
theorem mem_search_iff {path : List Nat} : path ∈ search adjacent source target hops ↔
    path.head? = some source ∧ path.getLast? = some target ∧ path.Nodup ∧
      (∀ step ∈ pairs path, step.2 ∈ adjacent step.1) ∧
      1 ≤ (pairs path).length ∧ (pairs path).length ≤ hops := by
  rw [search_eq, mem_simplePaths_iff_steps]
  simp only [mem_distinct]

/-- The search starts aligned, when there is room for its source. -/
theorem aligned_start (adjacent : Nat → List Nat) (source target : Nat) (hhops : hops ≠ 0) :
    (plan adjacent target hops).Aligned [] (start adjacent source) where
  visited := rfl
  nodup := List.nodup_singleton source
  length_le := Nat.one_le_iff_ne_zero.2 hhops

end Search

/-! ### Other names for the nodes -/

/-- **Naming the nodes otherwise** names the ways otherwise, when names are unique among the nodes
that can come up. -/
theorem map_ways {α β : Type} [DecidableEq α] [DecidableEq β] {P : α → Prop} {f : α → β}
    {next : α → List α} {next' : β → List β} {target : α}
    (hclosed : ∀ v, P v → ∀ w ∈ next v, P w)
    (hinj : ∀ v w, P v → P w → f v = f w → v = w)
    (hnext : ∀ v, P v → (next v).map f = next' (f v)) (htarget : P target) (hops : Nat)
    {visited : List α} (hvisited : ∀ v ∈ visited, P v) {node : α} (hnode : P node) :
    (ways next target hops visited node).map (List.map f) =
      ways next' (f target) hops (visited.map f) (f node) := by
  induction hops generalizing visited node with
  | zero => rfl
  | succ hops ih =>
    rw [ways, ways, ← hnext node hnode, List.map_flatMap, List.flatMap_map]
    refine List.flatMap_congr fun v hv => ?_
    have hPv := hclosed node hnode v hv
    have hmem : f v ∈ visited.map f ↔ v ∈ visited := by
      rw [List.mem_map]
      constructor
      · rintro ⟨w, hw, heq⟩
        exact hinj w v (hvisited w hw) hPv heq ▸ hw
      · exact fun hin => ⟨v, hin, rfl⟩
    have heq : f v = f target ↔ v = target :=
      ⟨hinj v target hPv htarget, congrArg f⟩
    simp only [hmem, heq]
    split
    · rfl
    · split
      · rfl
      · rw [List.map_map, ← List.map_cons,
          ← ih (List.forall_mem_cons.2 ⟨hPv, hvisited⟩) hPv, List.map_map]
        rfl

theorem map_simplePaths {α β : Type} [DecidableEq α] [DecidableEq β] {P : α → Prop} {f : α → β}
    {next : α → List α} {next' : β → List β} {source target : α}
    (hclosed : ∀ v, P v → ∀ w ∈ next v, P w)
    (hinj : ∀ v w, P v → P w → f v = f w → v = w)
    (hnext : ∀ v, P v → (next v).map f = next' (f v)) (hsource : P source) (htarget : P target)
    (hops : Nat) : (simplePaths next source target hops).map (List.map f) =
      simplePaths next' (f source) (f target) hops := by
  have hways : (ways next target hops [source] source).map (List.map f) =
      ways next' (f target) hops [f source] (f source) :=
    map_ways hclosed hinj hnext htarget hops (List.forall_mem_singleton.2 hsource) hsource
  have hends : f source = f target ↔ source = target :=
    ⟨hinj source target hsource htarget, congrArg f⟩
  rw [simplePaths, simplePaths, ← hways]
  simp only [hends]
  split
  · rfl
  · rw [List.map_map, List.map_map]
    rfl

end Path

/-! ### A graph with indices -/

namespace IndexedGraph

variable {g : IndexedGraph S}

namespace Sound

variable (h : g.Sound)
include h

theorem mem_adjacent_iff {v w : Nat} :
    w ∈ g.adjacent v ↔ ∃ (place : Nat) (e : Edge S), g.edges[place]? = some e ∧
      e.source = v ∧ e.target = w := by
  simp only [adjacent, targets, h.leaving, List.mem_filterMap, List.mem_reverse, mem_placesOf,
    Option.map_eq_some_iff, beq_iff_eq]
  constructor
  · rintro ⟨place, ⟨e, he, rfl⟩, e', he', rfl⟩
    obtain rfl := Option.some.inj (he.symm.trans he')
    exact ⟨place, e, he, rfl, rfl⟩
  · rintro ⟨place, e, he, rfl, rfl⟩
    exact ⟨place, ⟨e, he, rfl⟩, e, he, rfl⟩

theorem lt_of_mem_adjacent {v w : Nat} (hw : w ∈ g.adjacent v) : w < g.nodes.size := by
  obtain ⟨place, e, he, -, rfl⟩ := h.mem_adjacent_iff.1 hw
  exact (h.ends place e he).2

/-- An edge leads from one node to another exactly when a record does between their names. -/
theorem mem_successors_toGraph_iff {v w : Nat} (hv : v < g.nodes.size) (hw : w < g.nodes.size) :
    g.nameAt w ∈ g.toGraph.successors (g.nameAt v) ↔ w ∈ g.adjacent v := by
  have hrecord : g.nameAt w ∈ g.toGraph.successors (g.nameAt v) ↔
      ∃ r ∈ g.relations, r.source.id = g.nameAt v ∧ r.target.id = g.nameAt w := by
    simp only [Graph.successors, Graph.leaving, toGraph, List.mem_eraseDups, List.map_reverse,
      List.mem_reverse, List.mem_map, List.mem_filter, beq_iff_eq]
    constructor
    · rintro ⟨_, ⟨⟨r, hr, rfl⟩, hsource⟩, htarget⟩
      exact ⟨r, hr, hsource, htarget⟩
    · rintro ⟨r, hr, hsource, htarget⟩
      exact ⟨_, ⟨⟨r, hr, rfl⟩, hsource⟩, htarget⟩
  simp only [hrecord, h.mem_adjacent_iff, h.mem_relations, h.joins_iff hv hw]
  constructor
  · rintro ⟨r, ⟨place, hr⟩, hends⟩
    exact ⟨place, r, hr, hends⟩
  · rintro ⟨place, r, hr, hends⟩
    exact ⟨r, ⟨place, hr⟩, hends⟩

/-- **The nodes that come next are named as in the plain graph**, in the same order. -/
theorem map_nameAt_distinct {v : Nat} (hv : v < g.nodes.size) :
    (Path.distinct (g.adjacent v)).map g.nameAt = g.toGraph.nextNodes (g.nameAt v) := by
  have hrange : Path.distinct (g.adjacent v) =
      (List.range g.nodes.size).filter fun w => decide (w ∈ g.adjacent v) := by
    refine (Path.pairwise_distinct _).eq_of_mem_iff (List.pairwise_lt_range.filter _) fun w => ?_
    rw [Path.mem_distinct, List.mem_filter, List.mem_range, decide_eq_true_iff]
    exact ⟨fun hw => ⟨h.lt_of_mem_adjacent hw, hw⟩, And.right⟩
  change _ = (g.entities.map Entity.id).filter _
  rw [hrange, map_id_entities, List.filter_map]
  refine congrArg (List.map g.nameAt) (List.filter_congr fun w hw => ?_)
  rw [Function.comp_apply, Bool.eq_iff_iff, decide_eq_true_iff, List.contains_iff_mem,
    h.mem_successors_toGraph_iff hv (List.mem_range.1 hw)]

/-- A path that is found has only nodes of the graph. -/
theorem lt_of_mem_search {source target hops : Nat} {path : List Nat} {v : Nat}
    (hsource : source < g.nodes.size)
    (hpath : path ∈ Path.search g.adjacent source target hops) (hv : v ∈ path) :
    v < g.nodes.size := by
  obtain ⟨hhead, -, -, hsteps, -⟩ := Path.mem_search_iff.1 hpath
  obtain ⟨way, rfl⟩ := List.head?_eq_some_iff.1 hhead
  rcases List.mem_cons.1 hv with rfl | hway
  · exact hsource
  · obtain ⟨u, -, hstep⟩ := Path.exists_step_to source hway
    exact h.lt_of_mem_adjacent (hsteps (u, v) hstep)

/-- **The search through a graph with indices** finds the simple paths of the plain graph, in the
same order. -/
theorem simplePaths_eq (source target : String) (hops : Nat) :
    g.simplePaths source target hops = g.toGraph.simplePaths source target hops := by
  rw [simplePaths, Graph.simplePaths, h.hasEntity_toGraph, h.hasEntity_toGraph, hasEntity,
    hasEntity, Table.contains, Table.contains, ← place?, ← place?]
  rcases hsource : g.place? source with _ | s
  · rfl
  rcases htarget : g.place? target with _ | t
  · rfl
  obtain ⟨hs, rfl⟩ := h.nameAt_of_place? hsource
  obtain ⟨ht, rfl⟩ := h.nameAt_of_place? htarget
  have hnames : ∀ path ∈ Path.search g.adjacent s t hops,
      path.filterMap g.idAt? = path.map g.nameAt := fun path hpath => by
    rw [List.filterMap_congr fun v hv => idAt?_eq (h.lt_of_mem_search hs hpath hv)]
    exact congrFun List.filterMap_eq_map path
  change (Path.search g.adjacent s t hops).map (List.filterMap g.idAt?) =
    Path.simplePaths g.toGraph.nextNodes (g.nameAt s) (g.nameAt t) hops
  rw [List.map_congr_left hnames, Path.search_eq]
  exact Path.map_simplePaths (fun v _ w hw => h.lt_of_mem_adjacent (Path.mem_distinct.1 hw))
    (fun _ _ => h.nameAt_inj) (fun _ => h.map_nameAt_distinct) hs ht hops

end Sound

end IndexedGraph

/-! ### The search is exact -/

/-- **The search for simple paths is exact.** Nodes may be joined in any way, by several edges, to
themselves, or in cycles. What is found ascends in the lexicographic order of lists of nodes, so
nothing is found twice. It is all the lists of nodes that begin with the source, end in the target,
repeat no node, follow an edge at each step and have at least one and at most `hops` steps; there
are none when the source is the target or no step is allowed. Otherwise the search takes steps until
there is none to take. On the way its path never has more than `hops` nodes, none of them twice, and
the visited nodes are those of the path.

In a graph with indices this is how the paths between two entities are found, and a graph without
indices that grew by the same calls has the same paths, in the same order. -/
theorem Path.search_exact [Scalar S] :
    (∀ (adjacent : Nat → List Nat) (source target hops : Nat),
      let found := search adjacent source target hops
      found.Pairwise (· < ·) ∧
      (∀ path, path ∈ found ↔
        path.head? = some source ∧ path.getLast? = some target ∧ path.Nodup ∧
          (∀ step ∈ pairs path, step.2 ∈ adjacent step.1) ∧
          1 ≤ (pairs path).length ∧ (pairs path).length ≤ hops) ∧
      (source = target ∨ hops = 0 → found = []) ∧
      (¬(source = target ∨ hops = 0) →
        let p := plan adjacent target hops
        (∃ final, Relation.ReflTransGen p.Leads (start adjacent source) final ∧
          p.step final = none ∧ found = final.found) ∧
        ∀ s, Relation.ReflTransGen p.Leads (start adjacent source) s →
          s.path.length ≤ hops ∧ s.path.Nodup ∧ s.visited = s.path)) ∧
    ∀ (calls : List (Graph.Insertion S)) (source target : String) (hops : Nat),
      (IndexedGraph.grow .empty calls).simplePaths source target hops =
        (Graph.grow .empty calls).simplePaths source target hops := by
  refine ⟨fun adjacent source target hops => ?_, fun calls source target hops => ?_⟩
  · intro found
    refine ⟨pairwise_search, fun _ => mem_search_iff, fun hnone => if_pos hnone, fun hsome => ?_⟩
    intro p
    obtain ⟨hreaches, hend⟩ := p.reaches_run (start adjacent source)
    refine ⟨⟨_, hreaches, hend, if_neg hsome⟩, fun s hs => ?_⟩
    have haligned : p.Aligned [] s :=
      (aligned_start adjacent source target fun hhops => hsome (Or.inr hhops)).reaches hs
    have hvisited : s.visited = s.path := by
      rw [haligned.visited, List.append_nil]
      exact List.filterMap_some
    exact ⟨haligned.length_le, hvisited ▸ haligned.nodup, hvisited⟩
  · obtain ⟨hsound, hgraph⟩ := IndexedGraph.sound_grow calls
    rw [hsound.simplePaths_eq, hgraph]

end GraphReasoner
