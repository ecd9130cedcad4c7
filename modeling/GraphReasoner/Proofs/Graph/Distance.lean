import GraphReasoner.Proofs.Graph.Neighborhood
import Mathlib.Combinatorics.SimpleGraph.Metric

/-!
# Levels are distances

Which nodes a breadth-first search discovers is a matter of distances in an undirected graph, the
one in which two identifiers are joined by a relation of an allowed type, whichever way it points
(`GraphReasoner.Relation.joined`). A relation from an entity to itself joins nothing, and several
relations between two entities join them once.

The distance from some seeds is that from the nearest of them
(`GraphReasoner.distanceFrom`). Of a node at distance `d + 1` some neighbour is at distance `d`, and
no neighbour is nearer, which is all that the search has to know: when the nodes visited are those
within distance `d` and the level is made of those at distance `d`, then what is discovered from the
level are the nodes at distance `d + 1` (`GraphReasoner.Graph.Resolves.mem_discoverLevel_iff`).

* `GraphReasoner.Graph.Resolves.exact_levels` – what the levels list, in which order, and through
  what.
-/

namespace GraphReasoner

/-! ### The distance from some seeds -/

section Distance

variable {V : Type}

/-- **The distance of a node from some seeds**, which is that from the nearest one; it is infinite
when the node cannot be reached from any. -/
noncomputable def distanceFrom (G : SimpleGraph V) (seeds : List V) (v : V) : ℕ∞ :=
  ⨅ seed ∈ seeds, G.edist seed v

variable {G : SimpleGraph V} {seeds : List V} {u v : V} {n : ℕ}

theorem distanceFrom_le_iff :
    distanceFrom G seeds v ≤ n ↔ ∃ seed ∈ seeds, ∃ walk : G.Walk seed v, walk.length ≤ n := by
  constructor
  · intro h
    have hlt : distanceFrom G seeds v < (n : ℕ∞) + 1 := ENat.lt_natCast_add_one_iff.2 h
    obtain ⟨seed, hlt⟩ := iInf_lt_iff.1 hlt
    obtain ⟨hseed, hlt⟩ := iInf_lt_iff.1 hlt
    obtain ⟨walk, hwalk⟩ := SimpleGraph.exists_walk_of_edist_ne_top hlt.ne_top
    rw [← hwalk] at hlt
    exact ⟨seed, hseed, walk, Nat.cast_le.1 (ENat.lt_natCast_add_one_iff.1 hlt)⟩
  · rintro ⟨seed, hseed, walk, hwalk⟩
    exact (iInf₂_le seed hseed).trans (walk.edist_le.trans (Nat.cast_le.2 hwalk))

theorem distanceFrom_eq_zero_iff : distanceFrom G seeds v = 0 ↔ v ∈ seeds := by
  rw [← nonpos_iff_eq_zero, ← Nat.cast_zero, distanceFrom_le_iff]
  constructor
  · rintro ⟨seed, hseed, walk, hwalk⟩
    exact SimpleGraph.Walk.eq_of_length_eq_zero (Nat.le_zero.1 hwalk) ▸ hseed
  · exact fun hv => ⟨v, hv, .nil, Nat.le_refl 0⟩

/-- A neighbour is at most one step further away. -/
theorem distanceFrom_le_succ (hadj : G.Adj u v) (h : distanceFrom G seeds u ≤ n) :
    distanceFrom G seeds v ≤ (n + 1 : ℕ) := by
  obtain ⟨seed, hseed, walk, hwalk⟩ := distanceFrom_le_iff.1 h
  exact distanceFrom_le_iff.2 ⟨seed, hseed, walk.concat hadj, by
    rw [SimpleGraph.Walk.length_concat]
    exact Nat.succ_le_succ hwalk⟩

/-- **A node is one step further away** than the nearest of its neighbours. -/
theorem distanceFrom_eq_succ_iff : distanceFrom G seeds v = (n + 1 : ℕ) ↔
    ¬distanceFrom G seeds v ≤ n ∧ ∃ u, distanceFrom G seeds u = n ∧ G.Adj u v := by
  constructor
  · intro h
    have hfar : ¬distanceFrom G seeds v ≤ n := by
      rw [h, Nat.cast_le]
      exact Nat.not_succ_le_self n
    obtain ⟨seed, hseed, walk, hwalk⟩ := distanceFrom_le_iff.1 h.le
    refine ⟨hfar, ?_⟩
    cases walk using SimpleGraph.Walk.concatRec with
    | Hnil => exact absurd (distanceFrom_le_iff.2 ⟨_, hseed, .nil, Nat.zero_le n⟩) hfar
    | @Hconcat _ u _ walk hadj =>
      rw [SimpleGraph.Walk.length_concat, Nat.add_le_add_iff_right] at hwalk
      have hle : distanceFrom G seeds u ≤ n := distanceFrom_le_iff.2 ⟨seed, hseed, walk, hwalk⟩
      refine ⟨u, le_antisymm hle (le_of_not_gt fun hlt => hfar ?_), hadj⟩
      -- if the neighbour were nearer, so would be the node
      obtain ⟨m, hm⟩ := ENat.ne_top_iff_exists.1 hlt.ne_top
      rw [← hm, Nat.cast_lt] at hlt
      exact (distanceFrom_le_succ hadj hm.symm.le).trans (Nat.cast_le.2 hlt)
  · rintro ⟨hfar, u, hu, hadj⟩
    refine le_antisymm (distanceFrom_le_succ hadj hu.le) ?_
    rw [Nat.cast_add_one]
    exact Order.add_one_le_of_lt (not_le.1 hfar)

/-- Up to the distance of a node, some node is at each distance. -/
theorem exists_distanceFrom_eq {m : ℕ} (hm : m ≤ n) (h : distanceFrom G seeds v = n) :
    ∃ u, distanceFrom G seeds u = m := by
  induction hm using Nat.leRec generalizing v with
  | refl => exact ⟨v, h⟩
  | le_succ_of_le _ ih =>
    obtain ⟨-, u, hu, -⟩ := distanceFrom_eq_succ_iff.1 h
    exact ih hu

end Distance

/-! ### Joined by relations -/

namespace Relation

variable {S : Type}

/-- A relation joins two identifiers, whichever way it points. -/
def Joins (r : Relation S) (id other : String) : Prop :=
  r.source.id = id ∧ r.target.id = other ∨ r.source.id = other ∧ r.target.id = id

/-- **The undirected graph of some relations** of the allowed types. -/
def joined (relations : List (Relation S)) (kinds : List String) : SimpleGraph String :=
  SimpleGraph.fromRel fun id other =>
    ∃ r ∈ relations, Allows kinds r.kind ∧ r.source.id = id ∧ r.target.id = other

theorem joined_adj_iff {relations : List (Relation S)} {kinds : List String} {id other : String} :
    (joined relations kinds).Adj id other ↔
      id ≠ other ∧ ∃ r ∈ relations, Allows kinds r.kind ∧ r.Joins id other := by
  rw [joined, SimpleGraph.fromRel_adj]
  refine and_congr_right fun _ => ?_
  constructor
  · rintro (⟨r, hr, hkind, hs, ht⟩ | ⟨r, hr, hkind, hs, ht⟩)
    · exact ⟨r, hr, hkind, Or.inl ⟨hs, ht⟩⟩
    · exact ⟨r, hr, hkind, Or.inr ⟨hs, ht⟩⟩
  · rintro ⟨r, hr, hkind, ⟨hs, ht⟩ | ⟨hs, ht⟩⟩
    · exact Or.inl ⟨r, hr, hkind, hs, ht⟩
    · exact Or.inr ⟨r, hr, hkind, hs, ht⟩

/-- **The distance of an identifier from some seeds**, along relations of the allowed types in
either direction. -/
noncomputable def distance (relations : List (Relation S)) (kinds seeds : List String) :
    String → ℕ∞ :=
  distanceFrom (joined relations kinds) seeds

theorem one_le_distance_iff {relations : List (Relation S)} {kinds seeds : List String}
    {id : String} : 1 ≤ distance relations kinds seeds id ↔ id ∉ seeds := by
  rw [Order.one_le_iff_ne_zero, Ne, distance, distanceFrom_eq_zero_iff]

end Relation

namespace Graph

variable {S : Type} {g : Graph S} {kinds : List String}

/-! ### What is discovered -/

/-- **What is found from some nodes**, given those visited: it comes through a record at one of the
nodes, it is not visited, and whatever is joined to one of the nodes is visited or found. -/
structure Finds (g : Graph S) (kinds visited nodes : List String)
    (found : List (String × Record S)) : Prop where
  origin : ∀ f ∈ found, ∃ u ∈ nodes, f.2 ∈ g.touching kinds u ∧ f.1 = otherEnd u f.2
  fresh : ∀ f ∈ found, f.1 ∉ visited
  complete : ∀ u ∈ nodes, ∀ r ∈ g.touching kinds u,
    otherEnd u r ∈ visited ∨ otherEnd u r ∈ found.map Prod.fst

/-- Looks at one record at a node. -/
def discover (visited : List String) (id : String) (found : List (String × Record S))
    (r : Record S) : List (String × Record S) :=
  if otherEnd id r ∈ visited ∨ otherEnd id r ∈ found.map Prod.fst then found
  else found ++ [(otherEnd id r, r)]

theorem discoverFrom_eq (g : Graph S) (kinds visited : List String) (id : String) :
    g.discoverFrom kinds visited id = (g.touching kinds id).foldl (discover visited id) [] := by
  refine List.foldl_ext _ _ _ fun found r _ => if_congr ?_ rfl rfl
  rw [Bool.or_eq_true, List.contains_iff_mem, List.any_eq_true, List.mem_map]
  simp only [beq_iff_eq]

theorem finds_discoverFrom (g : Graph S) (kinds visited : List String) (id : String) :
    g.Finds kinds visited [id] (g.discoverFrom kinds visited id) := by
  -- the records at the node that were looked at
  have hfold : ∀ records : List (Record S),
      (∀ f ∈ records.foldl (discover visited id) [], f.2 ∈ records ∧ f.1 = otherEnd id f.2) ∧
      (∀ f ∈ records.foldl (discover visited id) [], f.1 ∉ visited) ∧
      ∀ r ∈ records, otherEnd id r ∈ visited ∨
        otherEnd id r ∈ (records.foldl (discover visited id) []).map Prod.fst := by
    intro records
    induction records using List.reverseRecOn with
    | nil => exact ⟨nofun, nofun, nofun⟩
    | append_singleton records r ih =>
      obtain ⟨horigin, hfresh, hcomplete⟩ := ih
      rw [List.foldl_append, List.foldl_cons, List.foldl_nil]
      generalize records.foldl (discover visited id) [] = found at horigin hfresh hcomplete
      have horigin' : ∀ f ∈ found, f.2 ∈ records ++ [r] ∧ f.1 = otherEnd id f.2 := fun f hf =>
        ⟨List.mem_append_left _ (horigin f hf).1, (horigin f hf).2⟩
      rw [discover]
      split
      · rename_i hold
        exact ⟨horigin', hfresh, List.forall_mem_append.2
          ⟨hcomplete, List.forall_mem_singleton.2 hold⟩⟩
      · rename_i hnew
        rw [not_or] at hnew
        refine ⟨List.forall_mem_append.2 ⟨horigin', List.forall_mem_singleton.2 ⟨by simp, rfl⟩⟩,
          List.forall_mem_append.2 ⟨hfresh, List.forall_mem_singleton.2 hnew.1⟩,
          List.forall_mem_append.2 ⟨fun r' hr' => ?_, List.forall_mem_singleton.2 (by simp)⟩⟩
        rw [List.map_append, List.mem_append]
        exact (hcomplete r' hr').imp_right Or.inl
  rw [discoverFrom_eq]
  obtain ⟨horigin, hfresh, hcomplete⟩ := hfold (g.touching kinds id)
  exact ⟨fun f hf => ⟨id, List.mem_singleton_self id, horigin f hf⟩, hfresh,
    List.forall_mem_singleton.2 hcomplete⟩

theorem finds_discoverLevel (g : Graph S) (kinds visited level : List String) :
    g.Finds kinds visited level (g.discoverLevel kinds visited level) := by
  unfold discoverLevel
  induction level using List.reverseRecOn with
  | nil => exact ⟨nofun, nofun, nofun⟩
  | append_singleton level id ih =>
    rw [List.foldl_append, List.foldl_cons, List.foldl_nil]
    generalize level.foldl _ [] = found at ih
    have hlast := g.finds_discoverFrom kinds (found.map Prod.fst ++ visited) id
    refine ⟨List.forall_mem_append.2 ⟨fun f hf => ?_, fun f hf => ?_⟩,
      List.forall_mem_append.2 ⟨ih.fresh, fun f hf hold => ?_⟩,
      List.forall_mem_append.2 ⟨fun u hu r hr => ?_, List.forall_mem_singleton.2 fun r hr => ?_⟩⟩
    · obtain ⟨u, hu, horigin⟩ := ih.origin f hf
      exact ⟨u, List.mem_append_left _ hu, horigin⟩
    · obtain ⟨u, hu, horigin⟩ := hlast.origin f hf
      exact ⟨u, List.mem_append_right _ hu, horigin⟩
    · exact hlast.fresh f hf (List.mem_append_right _ hold)
    · rw [List.map_append, List.mem_append]
      exact (ih.complete u hu r hr).imp_right Or.inl
    · rw [List.map_append, List.mem_append]
      rcases hlast.complete id (List.mem_singleton_self id) r hr with hold | hnew
      · exact (List.mem_append.1 hold).symm.imp_right Or.inl
      · exact Or.inr (Or.inr hnew)

/-! ### The level at a distance -/

/-- What is joined is in the graph. -/
theorem hasEntity_of_joins {rel : Relation S} (hrel : rel ∈ g.relations) {id other : String}
    (hjoins : rel.Joins id other) : g.hasEntity id = true ∧ g.hasEntity other = true := by
  obtain ⟨r, -, hres⟩ := mem_relations_iff.1 hrel
  obtain ⟨s, t, hs, ht, rfl⟩ := resolve?_eq_some_iff.1 hres
  rw [Relation.Joins, Record.between, id_of_entity? hs, id_of_entity? ht] at hjoins
  have hsource : g.hasEntity r.source = true := hasEntity_iff.2 ⟨s, hs⟩
  have htarget : g.hasEntity r.target = true := hasEntity_iff.2 ⟨t, ht⟩
  rcases hjoins with ⟨rfl, rfl⟩ | ⟨rfl, rfl⟩
  · exact ⟨hsource, htarget⟩
  · exact ⟨htarget, hsource⟩

theorem hasEntity_of_adj {id other : String}
    (hadj : (Relation.joined g.relations kinds).Adj id other) :
    g.hasEntity id = true ∧ g.hasEntity other = true := by
  obtain ⟨-, rel, hrel, -, hjoins⟩ := Relation.joined_adj_iff.1 hadj
  exact hasEntity_of_joins hrel hjoins

section Level

variable (h : g.Resolves)
include h

/-- The relation of a record at a node joins the node and the other end. -/
theorem Resolves.joins_of_mem_touching {id : String} {r : Record S}
    (hr : r ∈ g.touching kinds id) : ∃ rel, g.resolve? r = some rel ∧ rel ∈ g.relations ∧
      Allows kinds rel.kind ∧ rel.Joins id (otherEnd id r) := by
  obtain ⟨hrecord, htouches, hkind⟩ := mem_touching_iff.1 hr
  obtain ⟨rel, hrel⟩ := h r hrecord
  obtain ⟨s, t, hs, ht, rfl⟩ := resolve?_eq_some_iff.1 hrel
  refine ⟨_, hrel, mem_relations_iff.2 ⟨r, hrecord, hrel⟩, hkind, ?_⟩
  rw [Relation.Joins, Record.between, id_of_entity? hs, id_of_entity? ht]
  rcases ends_of_touches htouches with ⟨hother, hid⟩ | ⟨hother, hid⟩
  · exact Or.inr ⟨hother, hid⟩
  · exact Or.inl ⟨hid, hother⟩

/-- **Two different identifiers are joined** when one is the other end of a record at the other
one. -/
theorem Resolves.joined_adj_iff {id other : String} :
    (Relation.joined g.relations kinds).Adj id other ↔
      id ≠ other ∧ ∃ r ∈ g.touching kinds id, otherEnd id r = other := by
  rw [Relation.joined_adj_iff]
  refine and_congr_right fun hne => ?_
  constructor
  · rintro ⟨rel, hrel, hkind, hjoins⟩
    obtain ⟨r, hr, hres⟩ := mem_relations_iff.1 hrel
    obtain ⟨s, t, hs, ht, rfl⟩ := resolve?_eq_some_iff.1 hres
    rw [Relation.Joins, Record.between, id_of_entity? hs, id_of_entity? ht] at hjoins
    rcases hjoins with ⟨rfl, rfl⟩ | ⟨rfl, rfl⟩
    · exact ⟨r, mem_touching_iff.2 ⟨hr, Or.inl rfl, hkind⟩, by simp [otherEnd]⟩
    · exact ⟨r, mem_touching_iff.2 ⟨hr, Or.inr rfl, hkind⟩, by simp [otherEnd, hne.symm]⟩
  · rintro ⟨r, hr, rfl⟩
    obtain ⟨rel, -, hrel, hkind, hjoins⟩ := h.joins_of_mem_touching hr
    exact ⟨rel, hrel, hkind, hjoins⟩

variable {seeds visited level : List String} {d : ℕ}
  (hvisited : ∀ id, id ∈ visited ↔ g.hasEntity id = true ∧
    Relation.distance g.relations kinds seeds id ≤ d)
  (hlevel : ∀ id, id ∈ level ↔ g.hasEntity id = true ∧
    Relation.distance g.relations kinds seeds id = d)
include hvisited hlevel

/-- What is discovered from the level at a distance is one step further away, and was joined to a
node of the level. -/
theorem Resolves.through_of_mem_discoverLevel {f : String × Record S}
    (hf : f ∈ g.discoverLevel kinds visited level) :
    Relation.distance g.relations kinds seeds f.1 = (d + 1 : ℕ) ∧
      ∃ u, Relation.distance g.relations kinds seeds u = d ∧
        ∃ rel, g.resolve? f.2 = some rel ∧ Allows kinds rel.kind ∧ rel.Joins u f.1 := by
  have hfinds := g.finds_discoverLevel kinds visited level
  obtain ⟨u, hu, hr, hother⟩ := hfinds.origin f hf
  obtain ⟨rel, hres, hrel, hkind, hjoins⟩ := h.joins_of_mem_touching hr
  rw [← hother] at hjoins
  obtain ⟨hin, hdistance⟩ := (hlevel u).1 hu
  have hfar : ¬Relation.distance g.relations kinds seeds f.1 ≤ d := fun hle =>
    hfinds.fresh f hf ((hvisited f.1).2 ⟨(hasEntity_of_joins hrel hjoins).2, hle⟩)
  have hne : u ≠ f.1 := fun heq => hfar (heq ▸ hdistance.le)
  have hadj : (Relation.joined g.relations kinds).Adj u f.1 :=
    Relation.joined_adj_iff.2 ⟨hne, rel, hrel, hkind, hjoins⟩
  exact ⟨distanceFrom_eq_succ_iff.2 ⟨hfar, u, hdistance, hadj⟩, u, hdistance, rel, hres, hkind,
    hjoins⟩

/-- **The nodes discovered from the level at a distance** are those one step further away. -/
theorem Resolves.mem_discoverLevel_iff (id : String) :
    id ∈ (g.discoverLevel kinds visited level).map Prod.fst ↔
      Relation.distance g.relations kinds seeds id = (d + 1 : ℕ) := by
  constructor
  · intro hid
    obtain ⟨f, hf, rfl⟩ := List.mem_map.1 hid
    exact (h.through_of_mem_discoverLevel hvisited hlevel hf).1
  · intro hid
    obtain ⟨hfar, u, hu, hadj⟩ := distanceFrom_eq_succ_iff.1 hid
    obtain ⟨-, r, hr, rfl⟩ := h.joined_adj_iff.1 hadj
    have hin : u ∈ level := (hlevel u).2 ⟨(hasEntity_of_adj hadj).1, hu⟩
    refine ((g.finds_discoverLevel kinds visited level).complete u hin r hr).resolve_left ?_
    exact fun hold => hfar ((hvisited _).1 hold).2

end Level

/-! ### All levels -/

/-- **Levels are exact** after some distance: they list the nodes that are further away, up to a
depth, the nearer ones first, each with a record that joins it to a node one step nearer. There are
as many levels as the greatest distance tells. -/
structure ExactAfter (g : Graph S) (kinds seeds : List String) (d depth : ℕ)
    (levels : List (List (String × Record S))) : Prop where
  mem_iff : ∀ id, id ∈ levels.flatten.map Prod.fst ↔
    d < Relation.distance g.relations kinds seeds id ∧
      Relation.distance g.relations kinds seeds id ≤ (d + depth : ℕ)
  sorted : levels.flatten.Pairwise fun f f' =>
    Relation.distance g.relations kinds seeds f.1 ≤
      Relation.distance g.relations kinds seeds f'.1
  through : ∀ f ∈ levels.flatten, ∃ u,
    Relation.distance g.relations kinds seeds u + 1 =
      Relation.distance g.relations kinds seeds f.1 ∧
    ∃ rel, g.resolve? f.2 = some rel ∧ Allows kinds rel.kind ∧ rel.Joins u f.1
  le_length : ∀ f ∈ levels.flatten,
    Relation.distance g.relations kinds seeds f.1 ≤ (d + levels.length : ℕ)
  reached : levels ≠ [] → ∃ f ∈ levels.flatten,
    Relation.distance g.relations kinds seeds f.1 = (d + levels.length : ℕ)

/-- No levels are exact when no node is one step further away, or no step is allowed. -/
theorem exactAfter_nil {seeds : List String} {d depth : ℕ} (hnone : depth = 0 ∨
    ∀ id, Relation.distance g.relations kinds seeds id ≠ (d + 1 : ℕ)) :
    g.ExactAfter kinds seeds d depth [] where
  mem_iff id := by
    refine ⟨nofun, fun ⟨hlt, hle⟩ => ?_⟩
    obtain ⟨n, hn⟩ := ENat.ne_top_iff_exists.1 (ne_top_of_le_ne_top (ENat.natCast_ne_top _) hle)
    rw [← hn, Nat.cast_lt] at hlt
    rw [← hn, Nat.cast_le] at hle
    obtain ⟨u, hu⟩ := exists_distanceFrom_eq (Nat.succ_le_of_lt hlt) hn.symm
    rcases hnone with rfl | hnone
    · omega
    · exact absurd hu (hnone u)
  sorted := List.Pairwise.nil
  through := nofun
  le_length := nofun
  reached hne := absurd rfl hne

/-- **A level is put before exact levels** when it lists the nodes one step further away. -/
theorem ExactAfter.cons {seeds : List String} {d depth : ℕ} {first : String × Record S}
    {more : List (String × Record S)} {levels : List (List (String × Record S))}
    (h : g.ExactAfter kinds seeds (d + 1) depth levels)
    (hmem : ∀ id, id ∈ (first :: more).map Prod.fst ↔
      Relation.distance g.relations kinds seeds id = (d + 1 : ℕ))
    (hthrough : ∀ f ∈ first :: more, ∃ u, Relation.distance g.relations kinds seeds u = d ∧
      ∃ rel, g.resolve? f.2 = some rel ∧ Allows kinds rel.kind ∧ rel.Joins u f.1) :
    g.ExactAfter kinds seeds d (depth + 1) ((first :: more) :: levels) := by
  have hdistance : ∀ f ∈ first :: more,
      Relation.distance g.relations kinds seeds f.1 = (d + 1 : ℕ) := fun f hf =>
    (hmem f.1).1 (List.mem_map_of_mem hf)
  have hdepth : d + (depth + 1) = d + 1 + depth := by omega
  have hlength : d + ((first :: more) :: levels).length = d + 1 + levels.length := by
    rw [List.length_cons]
    omega
  constructor
  · intro id
    have hlt : (d : ℕ∞) < Relation.distance g.relations kinds seeds id ↔
        Relation.distance g.relations kinds seeds id = (d + 1 : ℕ) ∨
          ((d + 1 : ℕ) : ℕ∞) < Relation.distance g.relations kinds seeds id := by
      rw [← ENat.add_one_le_iff (ENat.natCast_ne_top d), ← Nat.cast_add_one, le_iff_eq_or_lt,
        eq_comm]
    rw [List.flatten_cons, List.map_append, List.mem_append, hmem, h.mem_iff, hlt, hdepth]
    constructor
    · rintro (heq | ⟨hlt, hle⟩)
      · exact ⟨Or.inl heq, heq.le.trans (Nat.cast_le.2 (Nat.le_add_right _ _))⟩
      · exact ⟨Or.inr hlt, hle⟩
    · rintro ⟨heq | hlt, hle⟩
      · exact Or.inl heq
      · exact Or.inr ⟨hlt, hle⟩
  · rw [List.flatten_cons, List.pairwise_append]
    refine ⟨List.pairwise_of_forall_mem_list fun f hf f' hf' => ?_, h.sorted, fun f hf f' hf' => ?_⟩
    · exact ((hdistance f hf).trans (hdistance f' hf').symm).le
    · rw [hdistance f hf]
      exact ((h.mem_iff f'.1).1 (List.mem_map_of_mem hf')).1.le
  · refine List.forall_mem_append.2 ⟨fun f hf => ?_, h.through⟩
    obtain ⟨u, hu, hrel⟩ := hthrough f hf
    exact ⟨u, by rw [hu, hdistance f hf, Nat.cast_add_one], hrel⟩
  · rw [hlength]
    refine List.forall_mem_append.2 ⟨fun f hf => ?_, h.le_length⟩
    exact (hdistance f hf).le.trans (Nat.cast_le.2 (Nat.le_add_right _ _))
  · intro _
    rw [hlength]
    rcases levels with _ | ⟨level, levels⟩
    · exact ⟨first, by simp, hdistance first List.mem_cons_self⟩
    · obtain ⟨f, hf, hreached⟩ := h.reached (List.cons_ne_nil _ _)
      exact ⟨f, List.mem_append_right _ hf, hreached⟩

/-- **The levels of a search are exact.** -/
theorem Resolves.exact_levels (h : g.Resolves) {seeds visited level : List String} {d : ℕ}
    (hvisited : ∀ id, id ∈ visited ↔ g.hasEntity id = true ∧
      Relation.distance g.relations kinds seeds id ≤ d)
    (hlevel : ∀ id, id ∈ level ↔ g.hasEntity id = true ∧
      Relation.distance g.relations kinds seeds id = d) (depth : ℕ) :
    g.ExactAfter kinds seeds d depth (g.levels kinds depth visited level) := by
  induction depth generalizing visited level d with
  | zero => exact exactAfter_nil (Or.inl rfl)
  | succ depth ih =>
    have hthrough := fun f hf => h.through_of_mem_discoverLevel (f := f) hvisited hlevel hf
    have hmem := fun id => h.mem_discoverLevel_iff hvisited hlevel id
    rw [Graph.levels]
    split
    · rename_i hnil
      refine exactAfter_nil (Or.inr fun id hid => ?_)
      have hin := (hmem id).2 hid
      rw [hnil] at hin
      cases hin
    · rename_i first more hfound
      rw [hfound] at hthrough hmem
      have hentity : ∀ id, Relation.distance g.relations kinds seeds id = (d + 1 : ℕ) →
          g.hasEntity id = true := fun id hid => by
        obtain ⟨-, u, -, hadj⟩ := distanceFrom_eq_succ_iff.1 hid
        exact (hasEntity_of_adj hadj).2
      refine (ih (fun id => ?_) fun id => ?_).cons hmem fun f hf => (hthrough f hf).2
      · rw [List.mem_append, hmem, hvisited]
        constructor
        · rintro (hid | ⟨hin, hle⟩)
          · exact ⟨hentity id hid, hid.le⟩
          · exact ⟨hin, hle.trans (Nat.cast_le.2 (Nat.le_succ d))⟩
        · rintro ⟨hin, hle⟩
          rcases hle.eq_or_lt with heq | hlt
          · exact Or.inl heq
          · rw [Nat.cast_add_one] at hlt
            exact Or.inr ⟨hin, ENat.lt_natCast_add_one_iff.1 hlt⟩
      · rw [hmem]
        exact ⟨fun hid => ⟨hentity id hid, hid⟩, And.right⟩

end Graph

/-! ### Neighborhoods -/

/-- **A neighborhood is exact** for some relations, allowed types, seeds and a depth. -/
structure Neighborhood.Exact {S : Type} (found : Neighborhood S) (relations : List (Relation S))
    (kinds seeds : List String) (depth : ℕ) : Prop where
  /-- No node is discovered twice. -/
  nodup : found.discovered.Nodup
  /-- What is discovered is within the depth, and no seed. -/
  mem_iff : ∀ id, id ∈ found.discovered ↔ id ∉ seeds ∧
    1 ≤ Relation.distance relations kinds seeds id ∧
      Relation.distance relations kinds seeds id ≤ depth
  /-- The nearer nodes come first. -/
  sorted : found.discovered.Pairwise fun id other =>
    Relation.distance relations kinds seeds id ≤ Relation.distance relations kinds seeds other
  length_eq : found.relations.length = found.discovered.length
  /-- The relation found with a node joins it to a seed, or to a node discovered before, that is
  one step nearer. -/
  through : ∀ (i : ℕ) (id : String) (r : Relation S), found.discovered[i]? = some id →
    found.relations[i]? = some r → r ∈ relations ∧ Allows kinds r.kind ∧
      ∃ u ∈ seeds ++ found.discovered.take i, r.Joins u id ∧
        Relation.distance relations kinds seeds u + 1 = Relation.distance relations kinds seeds id
  le_depth : ∀ id ∈ found.discovered, Relation.distance relations kinds seeds id ≤ found.depth
  /-- The depth is that of some node, unless there is none. -/
  reached : found.discovered = [] ∧ found.depth = 0 ∨
    ∃ id ∈ found.discovered, Relation.distance relations kinds seeds id = found.depth

/-- In a list that ascends, what is less than an item comes before it. -/
theorem mem_take_of_lt {α β : Type} [Preorder β] {f : α → β} {items : List α}
    (hsorted : items.Pairwise fun a b => f a ≤ f b) {i : ℕ} {a b : α} (ha : items[i]? = some a)
    (hb : b ∈ items) (hlt : f b < f a) : b ∈ items.take i := by
  rw [← List.take_append_drop i items, List.mem_append] at hb
  refine hb.resolve_right fun hlate => ?_
  obtain ⟨hi, rfl⟩ := List.getElem?_eq_some_iff.1 ha
  rw [List.drop_eq_getElem_cons hi] at hlate
  have hdrop := hsorted.sublist (List.drop_sublist i items)
  rw [List.drop_eq_getElem_cons hi, List.pairwise_cons] at hdrop
  rcases List.mem_cons.1 hlate with rfl | hlater
  · exact lt_irrefl _ hlt
  · exact lt_irrefl _ (hlt.trans_le (hdrop.1 b hlater))

/-- **The neighborhoods of a graph are exact.** -/
theorem Graph.Resolves.exact_neighborhood {S : Type} {g : Graph S} (h : g.Resolves)
    (seeds : List String) (depth : ℕ) (kinds : List String) :
    (g.neighborhood seeds depth kinds).Exact g.relations kinds seeds depth := by
  let levels := g.levels kinds depth (seeds.filter g.hasEntity) (seeds.filter g.hasEntity)
  have hknown : ∀ id, id ∈ seeds.filter g.hasEntity ↔ g.hasEntity id = true ∧
      Relation.distance g.relations kinds seeds id = (0 : ℕ) := fun id => by
    rw [List.mem_filter, Nat.cast_zero, Relation.distance, distanceFrom_eq_zero_iff, and_comm]
  have hexact : g.ExactAfter kinds seeds 0 depth levels :=
    h.exact_levels (fun id => by rw [hknown, Nat.cast_zero, nonpos_iff_eq_zero]) hknown depth
  have hfound : List.Forall₂ (fun f rel => g.resolve? f.2 = some rel) levels.flatten
      (levels.flatten.filterMap fun f => g.resolve? f.2) := by
    have hall := forall₂_filterMap (fun f : String × Record S => g.resolve? f.2) levels.flatten
    rwa [List.filter_eq_self.2 fun f hf => ?_] at hall
    obtain ⟨-, -, rel, hrel, -⟩ := hexact.through f hf
    rw [hrel]
    rfl
  have hmem : ∀ id, id ∈ levels.flatten.map Prod.fst ↔ id ∉ seeds ∧
      1 ≤ Relation.distance g.relations kinds seeds id ∧
        Relation.distance g.relations kinds seeds id ≤ depth := fun id => by
    rw [hexact.mem_iff, Nat.cast_zero, Nat.zero_add, pos_iff_ne_zero, ← Order.one_le_iff_ne_zero,
      ← and_assoc, ← Relation.one_le_distance_iff, and_self]
  have hsorted : (levels.flatten.map Prod.fst).Pairwise fun id other =>
      Relation.distance g.relations kinds seeds id ≤
        Relation.distance g.relations kinds seeds other := List.pairwise_map.2 hexact.sorted
  refine
    { nodup := (discovery_levels g kinds (seeds.filter g.hasEntity) depth).nodup
      mem_iff := hmem
      sorted := hsorted
      length_eq := by
        rw [neighborhood, List.length_map]
        exact hfound.length_eq.symm
      through := fun i id r hid hr => ?_
      le_depth := fun id hid => ?_
      reached := ?_ }
  · obtain ⟨f, hf, rfl⟩ := Option.map_eq_some_iff.1 (List.getElem?_map.symm.trans hid)
    have hin : f ∈ levels.flatten := List.mem_of_getElem? hf
    obtain ⟨u, hu, rel, hrel, hkind, hjoins⟩ := hexact.through f hin
    have hr' : g.resolve? f.2 = some r := by
      have hzip : (levels.flatten.zip (levels.flatten.filterMap fun f => g.resolve? f.2))[i]? =
          some (f, r) := List.getElem?_zip_eq_some.2 ⟨hf, hr⟩
      exact (List.forall₂_iff_zip.1 hfound).2 (List.mem_of_getElem? hzip)
    obtain rfl := Option.some.inj (hrel.symm.trans hr')
    have hrecord : f.2 ∈ g.records :=
      (discovery_levels g kinds (seeds.filter g.hasEntity) depth).mem_records f hin
    refine ⟨mem_relations_iff.2 ⟨f.2, hrecord, hrel⟩, hkind, u, ?_, hjoins, hu⟩
    by_cases hseed : u ∈ seeds
    · exact List.mem_append_left _ hseed
    · -- a node that is nearer and no seed was discovered before
      have hle : Relation.distance g.relations kinds seeds f.1 ≤ depth :=
        ((hmem f.1).1 (List.mem_map_of_mem hin)).2.2
      have hfinite : Relation.distance g.relations kinds seeds f.1 ≠ ⊤ :=
        ne_top_of_le_ne_top (ENat.natCast_ne_top _) hle
      have hlt : Relation.distance g.relations kinds seeds u <
          Relation.distance g.relations kinds seeds f.1 := by
        rw [← hu] at hfinite ⊢
        exact ENat.lt_add_one_iff (by simpa using hfinite) |>.2 le_rfl
      have hpos : 1 ≤ Relation.distance g.relations kinds seeds u :=
        Relation.one_le_distance_iff.2 hseed
      exact List.mem_append_right _ (mem_take_of_lt hsorted hid
        ((hmem u).2 ⟨hseed, hpos, hlt.le.trans hle⟩) hlt)
  · obtain ⟨f, hf, rfl⟩ := List.mem_map.1 hid
    exact (hexact.le_length f hf).trans_eq (by rw [Nat.zero_add]; rfl)
  · by_cases hlevels : levels = []
    · left
      exact ⟨congrArg (fun levels => levels.flatten.map Prod.fst) hlevels,
        congrArg List.length hlevels⟩
    · obtain ⟨f, hf, hreached⟩ := hexact.reached hlevels
      exact Or.inr ⟨f.1, List.mem_map_of_mem hf, by rw [hreached, Nat.zero_add]; rfl⟩

end GraphReasoner
