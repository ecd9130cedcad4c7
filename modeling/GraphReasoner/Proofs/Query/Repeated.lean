import GraphReasoner.Proofs.Graph.Distance
import GraphReasoner.Proofs.Graph.Rebuild
import GraphReasoner.Proofs.Query.Touching

/-!
# Repeated identifiers

The searches take lists of identifiers, and an identifier may be listed several times. To go through
an identifier once more finds nothing new, so what is found stays the same, in the order of first
appearance: an answer to lists with repetitions lists what the answer to the lists without them does
(`GraphReasoner.Query.Answer.Repeats`), and its edges are exactly those. But some of it comes
several times. A path comes as often as its ends are listed; a known identifier that a search starts
from is a node as often as it is listed; and the share of known identifiers, as well as the number
of paths, is counted with repetitions.

* `GraphReasoner.Graph.countsRepeats_grow` – for each search, when repetitions make a difference.
-/

namespace GraphReasoner

open GraphReasoner.Query
open GraphReasoner.Time (Instant)

variable {S : Type}

/-! ### Lists in the order of first appearance -/

/-- Items that yield nothing may be left out. -/
theorem flatMap_filter_of_eq_nil {α β : Type} {p : α → Bool} {f : α → List β} {items : List α}
    (h : ∀ a ∈ items, ¬p a = true → f a = []) : (items.filter p).flatMap f = items.flatMap f := by
  induction items with
  | nil => rfl
  | cons a items ih =>
    obtain ⟨ha, hitems⟩ := List.forall_mem_cons.1 h
    by_cases hp : p a = true
    · rw [List.filter_cons_of_pos hp, List.flatMap_cons, List.flatMap_cons, ih hitems]
    · rw [List.filter_cons_of_neg hp, List.flatMap_cons, ha hp, List.nil_append, ih hitems]

section Order

variable {α β : Type} [BEq α] [LawfulBEq α] [BEq β] [LawfulBEq β]

omit [LawfulBEq β] in
theorem eraseDups_eq_self_iff {items : List α} : items.eraseDups = items ↔ items.Nodup := by
  constructor
  · exact fun h => h ▸ Graph.nodup_eraseDups items
  · exact fun h => eraseDups_eq_self (h.imp fun hne heq => hne (eq_of_beq heq).symm)

theorem eraseDups_filter (p : α → Bool) (items : List α) :
    (items.filter p).eraseDups = items.eraseDups.filter p := by
  have hguard : ∀ a a' b, Option.guard (fun a => p a) a = some b →
      Option.guard (fun a => p a) a' = some b → a = a' := by
    simp only [Option.guard_eq_some_iff]
    rintro a a' b ⟨rfl, -⟩ ⟨rfl, -⟩
    rfl
  rw [← List.filterMap_eq_filter, Graph.eraseDups_filterMap hguard]

/-- What comes up in two lists, and in which order, is determined by what comes up in each. -/
theorem eraseDups_append_congr {as as' bs bs' : List α} (ha : as.eraseDups = as'.eraseDups)
    (hb : bs.eraseDups = bs'.eraseDups) : (as ++ bs).eraseDups = (as' ++ bs').eraseDups := by
  have hmem : ∀ a, a ∈ as ↔ a ∈ as' := fun a => by
    rw [← List.mem_eraseDups, ha, List.mem_eraseDups]
  have hnew : ∀ b, (!as.elem b) = !as'.elem b := fun b => by
    rw [Bool.eq_iff_iff]
    simp [hmem]
  rw [List.eraseDups_append, List.eraseDups_append, List.removeAll, List.removeAll,
    eraseDups_filter, eraseDups_filter, ha, hb]
  simp only [hnew]

/-- What some items yield, and in which order, does not depend on repetitions of the items. -/
theorem eraseDups_flatMap_eraseDups (f : α → List β) (items : List α) :
    (items.eraseDups.flatMap f).eraseDups = (items.flatMap f).eraseDups := by
  induction items using List.reverseRecOn with
  | nil => rfl
  | append_singleton items a ih =>
    rw [Graph.eraseDups_concat, List.flatMap_append, List.flatMap_singleton]
    split
    · rename_i hin
      have hold : (f a).removeAll (items.flatMap f) = [] := by
        refine List.filter_eq_nil_iff.2 fun b hb => ?_
        have hmem : b ∈ items.flatMap f := List.mem_flatMap.2 ⟨a, hin, hb⟩
        simpa using hmem
      rw [ih, List.eraseDups_append, hold, List.eraseDups_nil, List.append_nil]
    · rw [List.flatMap_append, List.flatMap_singleton]
      exact eraseDups_append_congr ih rfl

omit [BEq α] [LawfulBEq α] in
/-- What comes up in lists that come from some items is determined by what comes up in each. -/
theorem eraseDups_flatMap_congr {f f' : α → List β} (h : ∀ a, (f a).eraseDups = (f' a).eraseDups)
    (items : List α) : (items.flatMap f).eraseDups = (items.flatMap f').eraseDups := by
  induction items with
  | nil => rfl
  | cons a items ih =>
    rw [List.flatMap_cons, List.flatMap_cons]
    exact eraseDups_append_congr (h a) ih

/-- When new items follow some items, only these may repeat. -/
theorem eraseDups_append_of_new {items news : List α} (hnodup : news.Nodup)
    (hnew : ∀ a ∈ news, a ∉ items) : (items ++ news).eraseDups = items.eraseDups ++ news := by
  have hall : news.removeAll items = news :=
    List.filter_eq_self.2 fun a ha => by simpa using hnew a ha
  rw [List.eraseDups_append, hall, eraseDups_eq_self_iff.2 hnodup]

theorem eraseDups_eraseDups (items : List α) : items.eraseDups.eraseDups = items.eraseDups :=
  eraseDups_eq_self_iff.2 (Graph.nodup_eraseDups items)

omit [LawfulBEq α] in
theorem isEmpty_eraseDups (items : List α) : items.eraseDups.isEmpty = items.isEmpty := by
  cases items with
  | nil => rfl
  | cons a items => rw [List.eraseDups_cons, List.isEmpty_cons, List.isEmpty_cons]

/-- Dropping repetitions makes a list shorter unless there are none. -/
theorem length_eraseDups_eq_iff {items : List String} :
    items.eraseDups.length = items.length ↔ items.Nodup := by
  rw [Graph.length_eraseDups, List.card_toFinset]
  constructor
  · intro heq
    exact List.dedup_eq_self.1 ((List.dedup_sublist items).eq_of_length heq)
  · exact fun h => congrArg List.length (List.dedup_eq_self.2 h)

end Order

namespace Graph

variable {g : Graph S} {kinds : List String} {hops : Nat}

/-! ### Paths -/

/-- **Between repeated identifiers** the paths are those between the identifiers, with
repetitions. -/
theorem Tells.pathsBetween_eraseDups [Scalar S] {done : List (Insertion S)} (h : g.Tells done)
    (hops : Nat) (sources targets : List String) :
    g.pathsBetween hops sources.eraseDups targets.eraseDups =
      (g.pathsBetween hops sources targets).eraseDups := by
  have hnodup : (g.pathsBetween hops sources.eraseDups targets.eraseDups).Nodup := by
    refine h.nodup_pathsBetween_iff.2 fun s t _ => ?_
    exact Nat.mul_le_mul (List.nodup_iff_count_le_one.1 (nodup_eraseDups sources) s)
      (List.nodup_iff_count_le_one.1 (nodup_eraseDups targets) t)
  rw [← eraseDups_eq_self_iff.2 hnodup, pathsBetween, eraseDups_flatMap_eraseDups, pathsBetween]
  exact eraseDups_flatMap_congr (fun s => eraseDups_flatMap_eraseDups _ targets) sources

/-- When all paths between an identifier and the others were found, the identifier may be left out
of the rest. -/
theorem removeAll_pathsAmong_filter {a : String} {found : List (List String)} {rest : List String}
    (h : ∀ b ∈ rest, ∀ path ∈ g.simplePaths a b hops ++ g.simplePaths b a hops, path ∈ found) :
    (g.pathsAmong hops (rest.filter fun b => !b == a)).removeAll found =
      (g.pathsAmong hops rest).removeAll found := by
  unfold List.removeAll
  induction rest with
  | nil => rfl
  | cons c rest ih =>
    obtain ⟨hc, hrest⟩ := List.forall_mem_cons.1 h
    by_cases hca : c = a
    · subst hca
      have hnone : ∀ b ∈ rest, (g.simplePaths c b hops ++ g.simplePaths b c hops).filter
          (fun path => !found.elem path) = [] := fun b hb =>
        List.filter_eq_nil_iff.2 fun path hpath => by simpa using hrest b hb path hpath
      rw [List.filter_cons_of_neg (by simp), pathsAmong, List.filter_append, List.filter_flatMap,
        List.flatMap_eq_nil_iff.2 hnone, List.nil_append, ih hrest]
    · have hnone : ∀ b ∈ rest, ¬(!b == a) = true →
          (g.simplePaths c b hops ++ g.simplePaths b c hops).filter
            (fun path => !found.elem path) = [] := by
        intro b _ hb
        obtain rfl : b = a := by simpa using hb
        refine List.filter_eq_nil_iff.2 fun path hpath => ?_
        simpa using hc path (List.mem_append.2 (List.mem_append.1 hpath).symm)
      rw [List.filter_cons_of_pos (by simpa using hca), pathsAmong, pathsAmong, List.filter_append,
        List.filter_append, List.filter_flatMap, List.filter_flatMap,
        flatMap_filter_of_eq_nil hnone, ih hrest]

/-- **Among repeated identifiers** no path is found that is not found among the identifiers without
repetitions, and none is found earlier or later. -/
theorem eraseDups_pathsAmong_eraseDups (g : Graph S) (hops : Nat) (ids : List String) :
    (g.pathsAmong hops ids.eraseDups).eraseDups = (g.pathsAmong hops ids).eraseDups := by
  -- the identifier that comes first is dropped from the rest, which thereby gets shorter
  induction hlength : ids.length using Nat.strong_induction_on generalizing ids with
  | h length ih =>
    cases ids with
    | nil => rfl
    | cons a rest =>
      let both := fun b => g.simplePaths a b hops ++ g.simplePaths b a hops
      let others := rest.filter fun b => !b == a
      have hothers : others.length < length := by
        rw [← hlength, List.length_cons]
        exact Nat.lt_succ_of_le (List.length_filter_le _ rest)
      have hself : ∀ b ∈ rest, ¬(!b == a) = true → both b = [] := by
        intro b _ hb
        obtain rfl : b = a := by simpa using hb
        exact List.append_eq_nil_iff.2 ⟨g.simplePaths_self b hops, g.simplePaths_self b hops⟩
      calc (g.pathsAmong hops (a :: rest).eraseDups).eraseDups
          = (others.eraseDups.flatMap both ++ g.pathsAmong hops others.eraseDups).eraseDups := by
            rw [List.eraseDups_cons, pathsAmong]
        _ = (others.flatMap both ++ g.pathsAmong hops others).eraseDups :=
            eraseDups_append_congr (eraseDups_flatMap_eraseDups both others)
              (ih others.length hothers others rfl)
        _ = (rest.flatMap both ++ g.pathsAmong hops others).eraseDups := by
            rw [flatMap_filter_of_eq_nil hself]
        _ = (g.pathsAmong hops (a :: rest)).eraseDups := by
            rw [List.eraseDups_append, removeAll_pathsAmong_filter, ← List.eraseDups_append,
              pathsAmong]
            exact fun b hb path hpath => List.mem_flatMap.2 ⟨b, hb, hpath⟩

theorem Tells.pathsAmong_eraseDups [Scalar S] {done : List (Insertion S)} (h : g.Tells done)
    (hops : Nat) (ids : List String) :
    g.pathsAmong hops ids.eraseDups = (g.pathsAmong hops ids).eraseDups := by
  have hnodup : (g.pathsAmong hops ids.eraseDups).Nodup := by
    refine h.nodup_pathsAmong_iff.2 fun s t _ => ?_
    exact Nat.mul_le_mul (List.nodup_iff_count_le_one.1 (nodup_eraseDups ids) s)
      (List.nodup_iff_count_le_one.1 (nodup_eraseDups ids) t)
  rw [← eraseDups_eq_self_iff.2 hnodup, eraseDups_pathsAmong_eraseDups]

/-! ### Neighborhoods -/

section Levels

variable {visited visited' level : List String} (h : ∀ id, id ∈ visited ↔ id ∈ visited')
include h

theorem discoverFrom_congr (g : Graph S) (kinds : List String) (id : String) :
    g.discoverFrom kinds visited id = g.discoverFrom kinds visited' id := by
  rw [discoverFrom_eq, discoverFrom_eq]
  exact List.foldl_ext _ _ _ fun found r _ => if_congr (or_congr_left (h _)) rfl rfl

/-- What is discovered from a level depends on what was visited, not in which order. -/
theorem discoverLevel_congr (g : Graph S) (kinds level : List String) :
    g.discoverLevel kinds visited level = g.discoverLevel kinds visited' level := by
  unfold discoverLevel
  refine List.foldl_ext _ _ _ fun found id _ => congrArg (found ++ ·) ?_
  exact discoverFrom_congr (fun id => by rw [List.mem_append, List.mem_append, h]) g kinds id

theorem levels_congr (g : Graph S) (kinds : List String) (depth : Nat) (level : List String) :
    g.levels kinds depth visited level = g.levels kinds depth visited' level := by
  induction depth generalizing visited visited' level with
  | zero => rfl
  | succ depth ih =>
    rw [levels, levels, discoverLevel_congr h]
    split
    · rfl
    · exact congrArg _ (ih (fun id => by rw [List.mem_append, List.mem_append, h]) _)

end Levels

/-- To go through a node of a level once more discovers nothing. -/
theorem discoverLevel_eraseDups (g : Graph S) (kinds visited level : List String) :
    g.discoverLevel kinds visited level.eraseDups = g.discoverLevel kinds visited level := by
  induction level using List.reverseRecOn with
  | nil => rfl
  | append_singleton level id ih =>
    have hlast : ∀ level : List String, g.discoverLevel kinds visited (level ++ [id]) =
        g.discoverLevel kinds visited level ++ g.discoverFrom kinds
          ((g.discoverLevel kinds visited level).map Prod.fst ++ visited) id := fun level => by
      rw [discoverLevel, List.foldl_append]
      rfl
    rw [eraseDups_concat]
    split
    · rename_i hin
      rw [hlast, ih, List.self_eq_append_right, List.eq_nil_iff_forall_not_mem]
      intro f hf
      have hfinds := g.finds_discoverFrom kinds
        ((g.discoverLevel kinds visited level).map Prod.fst ++ visited) id
      obtain ⟨_, hid, hr, hother⟩ := hfinds.origin f hf
      obtain rfl := List.mem_singleton.1 hid
      refine hfinds.fresh f hf (List.mem_append.2 ?_)
      rw [hother]
      exact ((g.finds_discoverLevel kinds visited level).complete _ hin f.2 hr).symm
    · rw [hlast, hlast, ih]

/-- **From repeated seeds** the search discovers what it discovers from each once. -/
theorem neighborhood_eraseDups (g : Graph S) (seeds : List String) (depth : Nat)
    (kinds : List String) :
    g.neighborhood seeds.eraseDups depth kinds = g.neighborhood seeds depth kinds := by
  have hlevels : ∀ known : List String,
      g.levels kinds depth known.eraseDups known.eraseDups = g.levels kinds depth known known := by
    intro known
    rw [levels_congr fun _ => List.mem_eraseDups]
    cases depth with
    | zero => rfl
    | succ depth => rw [levels, levels, discoverLevel_eraseDups]
  rw [neighborhood, neighborhood, ← eraseDups_filter, hlevels]

/-! ### What touches some entities -/

/-- Relations of a graph can be told by their triples. -/
theorem Tells.eq_of_map_triple_eq [Scalar S] {done : List (Insertion S)} (h : g.Tells done)
    {relations relations' : List (Relation S)} (hall : ∀ r ∈ relations, r ∈ g.relations)
    (hall' : ∀ r ∈ relations', r ∈ g.relations)
    (heq : relations.map Relation.triple = relations'.map Relation.triple) :
    relations = relations' := by
  have hfind : ∀ relations : List (Relation S), (∀ r ∈ relations, r ∈ g.relations) →
      (relations.map Relation.triple).filterMap (fun triple =>
        g.relations.find? fun r => r.triple == triple) = relations := by
    intro relations hall
    rw [List.filterMap_map]
    exact (List.filterMap_congr fun r hr =>
      find?_of_mem h.history.relation_triples_nodup (hall r hr)).trans List.filterMap_some
  rw [← hfind relations hall, heq, hfind relations' hall']

/-- **Around repeated entities** the same relations are met as around each once. -/
theorem Tells.touched_eraseDups [Scalar S] {done : List (Insertion S)} (h : g.Tells done)
    (kinds known nodes nodes' : List String) :
    (known.eraseDups.foldl (g.touch kinds) ⟨nodes, []⟩).relations =
      (known.foldl (g.touch kinds) ⟨nodes', []⟩).relations := by
  refine h.eq_of_map_triple_eq (mem_relations_of_touched nofun) (mem_relations_of_touched nofun) ?_
  rw [map_triple_touched, map_triple_touched, List.map_flatMap, List.map_flatMap,
    eraseDups_flatMap_eraseDups]

theorem otherEnds_eraseDups (known : List String) (relations : List (Relation S)) :
    otherEnds known.eraseDups relations = otherEnds known relations := by
  have hknown : ∀ id, known.eraseDups.contains id = known.contains id := fun id => by
    rw [Bool.eq_iff_iff, List.contains_iff_mem, List.contains_iff_mem, List.mem_eraseDups]
  simp only [otherEnds, hknown]

end Graph

/-! ### Answers -/

/-- **An answer repeats what another one lists**: but for repetitions it has the same nodes and the
same paths, in the same order, and its edges are the same. -/
structure Query.Answer.Repeats (a b : Answer S) : Prop where
  mem_nodes_iff : ∀ n, n ∈ a.nodes ↔ n ∈ b.nodes
  nodeIds_eq : a.nodeIds.eraseDups = b.nodeIds
  edges_eq : a.edges = b.edges
  paths_eq : a.paths.eraseDups = b.paths

/-- **Two answers are the same**: the same nodes, edges and paths are found, with the same
confidence. -/
structure Query.Answer.Same [Scalar S] [ExactScalar S] (a b : Answer S) : Prop where
  nodes_eq : a.nodes = b.nodes
  edges_eq : a.edges = b.edges
  paths_eq : a.paths = b.paths
  confidence_eq : ExactScalar.value a.confidence = ExactScalar.value b.confidence

namespace Query.Answer.Repeats

variable {a b : Answer S} (h : a.Repeats b)
include h

theorem nodup_nodeIds_iff : a.nodeIds.Nodup ↔ a.nodeIds = b.nodeIds := by
  rw [← h.nodeIds_eq, eq_comm, eraseDups_eq_self_iff]

theorem nodup_paths_iff : a.paths.Nodup ↔ a.paths = b.paths := by
  rw [← h.paths_eq, eq_comm, eraseDups_eq_self_iff]

end Query.Answer.Repeats

namespace Graph

/-- **No path has its ends listed several times**: where a path of at most so many steps leads from
one identifier to another, the one is listed among the sources and the other among the targets, each
once, or one of them is not listed at all. -/
def EndsOnce (g : Graph S) (hops : Nat) (sources targets : List String) : Prop :=
  ∀ s t, g.simplePaths s t hops ≠ [] → sources.count s * targets.count t ≤ 1

variable {g : Graph S} {kinds : List String} {hops : Nat}

theorem repeats_of_eraseDups {a b : Answer S} {ids : List String}
    (ha : a.nodes = g.answerNodes ids) (hb : b.nodes = g.answerNodes ids.eraseDups)
    (hedges : a.edges = b.edges) (hpaths : a.paths.eraseDups = b.paths) : a.Repeats b where
  mem_nodes_iff n := by
    rw [ha, hb]
    simp only [answerNodes, List.mem_map, List.mem_filterMap, List.mem_eraseDups]
  nodeIds_eq := by
    rw [Answer.nodeIds, Answer.nodeIds, ha, hb, map_id_answerNodes, map_id_answerNodes,
      eraseDups_filter]
  edges_eq := hedges
  paths_eq := hpaths

variable [Scalar S]

/-- **Repeated paths** make up the nodes and edges that the paths without repetitions do. -/
theorem answerOfPaths_eraseDups (g : Graph S) (kind : Kind) (paths : List (List String))
    (confidence : S) (now : Instant) :
    g.answerOfPaths kind paths.eraseDups confidence now =
      { g.answerOfPaths kind paths confidence now with paths := paths.eraseDups } := by
  have hids : paths.eraseDups.flatten.eraseDups = paths.flatten.eraseDups := by
    rw [← List.flatMap_id, ← List.flatMap_id, eraseDups_flatMap_eraseDups]
  rw [answerOfPaths, answerOfPaths, hids, eraseDups_flatMap_eraseDups]

theorem repeats_answerOfPaths {a b : Answer S} {kind : Kind} {paths : List (List String)}
    {now : Instant} (ha : a = g.answerOfPaths kind paths a.confidence now)
    (hb : b = g.answerOfPaths kind paths.eraseDups b.confidence now) :
    a.Repeats b ∧ a.nodes = b.nodes := by
  rw [answerOfPaths_eraseDups] at hb
  have hnodes : a.nodes = b.nodes :=
    (congrArg Answer.nodes ha).trans (congrArg Answer.nodes hb).symm
  have hids : a.nodes = g.answerNodes paths.flatten.eraseDups := congrArg Answer.nodes ha
  refine ⟨repeats_of_eraseDups hids ?_ ?_ ?_, hnodes⟩
  · rw [eraseDups_eraseDups, ← hnodes, hids]
  · exact (congrArg Answer.edges ha).trans (congrArg Answer.edges hb).symm
  · rw [congrArg Answer.paths ha, congrArg Answer.paths hb]
    rfl

variable [ExactScalar S] {done : List (Insertion S)}

/-! ### The searches for paths -/

/-- When the nodes are the same, so is the answer unless a path is listed twice or the confidence
differs. -/
theorem same_iff_of_repeats {a b : Answer S} (h : a.Repeats b) (hnodes : a.nodes = b.nodes) :
    a.Same b ↔ a.paths.Nodup ∧
      ExactScalar.value a.confidence = ExactScalar.value b.confidence := by
  rw [h.nodup_paths_iff]
  constructor
  · exact fun hsame => ⟨hsame.paths_eq, hsame.confidence_eq⟩
  · exact fun ⟨hpaths, hconfidence⟩ => ⟨hnodes, h.edges_eq, hpaths, hconfidence⟩

/-- **A search between repeated identifiers** repeats paths, and each path counts. -/
theorem Tells.repeats_findPaths (h : g.Tells done) (sources targets : List String) (hops : Nat)
    (now : Instant) :
    let a := g.findPaths sources targets hops now
    let b := g.findPaths sources.eraseDups targets.eraseDups hops now
    a.Repeats b ∧ a.nodes = b.nodes ∧ (a.paths.Nodup ↔ g.EndsOnce hops sources targets) ∧
      (a.Same b ↔ g.EndsOnce hops sources targets) := by
  intro a b
  have ha := g.findPaths_eq sources targets hops now
  have hb := g.findPaths_eq sources.eraseDups targets.eraseDups hops now
  rw [h.pathsBetween_eraseDups] at hb
  obtain ⟨hrepeats, hnodes⟩ : a.Repeats b ∧ a.nodes = b.nodes :=
    repeats_answerOfPaths (by rw [congrArg Answer.confidence ha]; exact ha)
      (by rw [congrArg Answer.confidence hb]; exact hb)
  have hpaths : a.paths = g.pathsBetween hops sources targets := congrArg Answer.paths ha
  have hnodup : a.paths.Nodup ↔ g.EndsOnce hops sources targets := by
    rw [hpaths]
    exact h.nodup_pathsBetween_iff
  refine ⟨hrepeats, hnodes, hnodup, ?_⟩
  rw [same_iff_of_repeats hrepeats hnodes, ← hnodup, and_iff_left_iff_imp]
  intro honce
  rw [hpaths] at honce
  rw [eraseDups_eq_self_iff.2 honce, ← ha] at hb
  exact congrArg (fun a => ExactScalar.value a.confidence) hb.symm

/-- When some path is found among some entities, the share of those that are known counts. -/
theorem Tells.value_confidence_subgraphOf (h : g.Tells done) (ids : List String) (hops : Nat)
    (now : Instant) :
    let a := g.subgraphOf ids hops now
    a.paths ≠ [] → ExactScalar.value a.confidence =
      (ExactScalar.value (g.knownShare ids : S) +
        ExactScalar.value (edgeDensity a.nodes.length a.edges : S)) / 2 := by
  intro a hsome
  have hfound : a.isEmpty = false := by
    rw [Answer.isEmpty, Bool.and_eq_false_iff]
    exact Or.inr (List.isEmpty_eq_false_iff.2 hsome)
  have hconfidence : a.confidence =
      (g.knownShare ids + edgeDensity a.nodes.length a.edges) / 2.0 :=
    ((h.wellFormed_subgraph ids hops (g.inUnit_knownShare ids) now).2 hfound).eq
  rw [hconfidence, ExactScalar.value_mean]

/-- **A search among repeated identifiers** repeats paths, and the share of identifiers that are
known is counted with repetitions. -/
theorem Tells.repeats_subgraphOf (h : g.Tells done) (ids : List String) (hops : Nat)
    (now : Instant) :
    let a := g.subgraphOf ids hops now
    let b := g.subgraphOf ids.eraseDups hops now
    a.Repeats b ∧ a.nodes = b.nodes ∧ (a.paths.Nodup ↔ g.EndsOnce hops ids ids) ∧
      (a.Same b ↔ g.EndsOnce hops ids ids ∧ (a.paths = [] ∨
        ExactScalar.value (g.knownShare ids : S) =
          ExactScalar.value (g.knownShare ids.eraseDups : S))) := by
  intro a b
  have ha : a = g.answerOfPaths .subgraph (g.pathsAmong hops ids) a.confidence now :=
    g.subgraph_eq ids hops _ now
  have hb : b = g.answerOfPaths .subgraph (g.pathsAmong hops ids).eraseDups b.confidence now := by
    rw [← h.pathsAmong_eraseDups]
    exact g.subgraph_eq ids.eraseDups hops _ now
  obtain ⟨hrepeats, hnodes⟩ := repeats_answerOfPaths ha hb
  have hpaths : a.paths = g.pathsAmong hops ids := congrArg Answer.paths ha
  have hnodup : a.paths.Nodup ↔ g.EndsOnce hops ids ids := by
    rw [hpaths]
    exact h.nodup_pathsAmong_iff
  refine ⟨hrepeats, hnodes, hnodup, ?_⟩
  rw [same_iff_of_repeats hrepeats hnodes, hnodup]
  refine and_congr_right fun honce => ?_
  have hsame : a.paths = [] ↔ b.paths = [] := by
    rw [(hrepeats.nodup_paths_iff).1 (hnodup.2 honce)]
  by_cases hnone : a.paths = []
  · have hids : g.pathsAmong hops ids = [] := hpaths.symm.trans hnone
    have hids' : g.pathsAmong hops ids.eraseDups = [] := by
      rw [h.pathsAmong_eraseDups, hids]
      rfl
    have heq : a = b := (subgraph_eq_empty hids _ now).trans (subgraph_eq_empty hids' _ now).symm
    exact ⟨fun _ => Or.inl hnone, fun _ => congrArg (fun a => ExactScalar.value a.confidence) heq⟩
  · have hvalue : ExactScalar.value a.confidence = _ :=
      h.value_confidence_subgraphOf ids hops now hnone
    have hvalue' : ExactScalar.value b.confidence = _ :=
      h.value_confidence_subgraphOf ids.eraseDups hops now (mt hsame.2 hnone)
    rw [or_iff_right hnone, hvalue, hvalue', ← hnodes, ← hrepeats.edges_eq,
      div_left_inj' two_ne_zero, add_left_inj]

end Graph

/-! ### The searches around entities -/

/-- **An answer is found around known identifiers**: these are its first nodes, others follow, and
it has no paths. -/
structure Query.Answer.FoundAround (a : Answer S) (g : Graph S) (known others : List String)
    (relations : List (Relation S)) : Prop where
  nodes_eq : a.nodes = g.answerNodes (known ++ others)
  edges_eq : a.edges = relations.map AnswerEdge.ofRelation
  paths_eq : a.paths = []

namespace Graph

variable [Scalar S] {g : Graph S}

omit [Scalar S] in
theorem neighborhood_nil (g : Graph S) (depth : Nat) (kinds : List String) :
    g.neighborhood [] depth kinds = ⟨[], [], 0⟩ := by
  cases depth <;> rfl

theorem foundAround_findNeighbors (g : Graph S) (seeds kinds : List String) (depth : Nat)
    (now : Instant) :
    let known := seeds.filter g.hasEntity
    let found := g.neighborhood known (max depth 1) kinds
    (g.findNeighbors seeds kinds depth now).FoundAround g known found.discovered
      found.relations := by
  unfold findNeighbors
  dsimp only
  split
  · rename_i hnone
    rw [List.isEmpty_iff.1 hnone, neighborhood_nil]
    exact ⟨rfl, rfl, rfl⟩
  · exact ⟨rfl, rfl, rfl⟩

theorem confidence_findNeighbors (g : Graph S) (seeds kinds : List String) (depth : Nat)
    (now : Instant) :
    let known := seeds.filter g.hasEntity
    let found := g.neighborhood known (max depth 1) kinds
    (g.findNeighbors seeds kinds depth now).confidence = if known.isEmpty then 0.0 else
      Scalar.lesser ((found.discovered.length : S) / (10.0 * ((max depth 1 : Nat) : S))) 1.0 :=
  apply_ite ..

theorem foundAround_touchingSearch (g : Graph S) (ids kinds : List String) (now : Instant) :
    let known := ids.filter g.hasEntity
    let relations := (known.foldl (g.touch kinds) ⟨known, []⟩).relations
    (g.touchingSearch ids kinds now).FoundAround g known (otherEnds known relations)
      relations := by
  dsimp only
  by_cases hnone : ids.filter g.hasEntity = []
  · rw [touchingSearch, touchingAnswer_eq_empty hnone, hnone]
    exact ⟨rfl, rfl, rfl⟩
  · have ha := touchingAnswer_eq hnone kinds (g.knownShare ids) now
    have hnodes := g.nodes_touched kinds (ids.filter g.hasEntity)
    dsimp only at ha hnodes
    rw [touchingSearch, ha, hnodes]
    exact ⟨rfl, rfl, rfl⟩

variable [ExactScalar S] {done : List (Insertion S)}

/-- **When an answer is found around known identifiers**, these are nodes as often as they are
listed. -/
theorem repeats_of_foundAround {a b : Answer S} {known others : List String}
    {relations : List (Relation S)} (ha : a.FoundAround g known others relations)
    (hb : b.FoundAround g known.eraseDups others relations)
    (hknown : ∀ id ∈ known, g.hasEntity id = true) (hothers : others.Nodup)
    (hnew : ∀ id ∈ others, id ∉ known) :
    a.Repeats b ∧ (a.nodeIds.Nodup ↔ known.Nodup) ∧ (a.Same b ↔ known.Nodup ∧
      ExactScalar.value a.confidence = ExactScalar.value b.confidence) := by
  have hedges : a.edges = b.edges := ha.edges_eq.trans hb.edges_eq.symm
  have hrepeats : a.Repeats b := by
    refine repeats_of_eraseDups ha.nodes_eq ?_ hedges ?_
    · rw [eraseDups_append_of_new hothers hnew, hb.nodes_eq]
    · rw [ha.paths_eq, hb.paths_eq, List.eraseDups_nil]
  have hids : a.nodeIds = b.nodeIds ↔ known.Nodup := by
    rw [Answer.nodeIds, Answer.nodeIds, ha.nodes_eq, hb.nodes_eq, map_id_answerNodes,
      map_id_answerNodes, List.filter_append, List.filter_append, List.append_left_inj,
      ← eraseDups_filter, List.filter_eq_self.2 hknown, eq_comm, eraseDups_eq_self_iff]
  refine ⟨hrepeats, hrepeats.nodup_nodeIds_iff.trans hids, ?_⟩
  constructor
  · exact fun h => ⟨hids.1 (congrArg (List.map AnswerNode.id) h.nodes_eq), h.confidence_eq⟩
  · rintro ⟨honce, hconfidence⟩
    refine ⟨?_, hedges, ha.paths_eq.trans hb.paths_eq.symm, hconfidence⟩
    rw [ha.nodes_eq, hb.nodes_eq, eraseDups_eq_self_iff.2 honce]

/-- **A search from repeated seeds** repeats the seeds, and nothing else counts. -/
theorem Tells.repeats_findNeighbors (h : g.Tells done) (seeds kinds : List String) (depth : Nat)
    (now : Instant) :
    let a := g.findNeighbors seeds kinds depth now
    let b := g.findNeighbors seeds.eraseDups kinds depth now
    a.Repeats b ∧ a.confidence = b.confidence ∧
      (a.nodeIds.Nodup ↔ (seeds.filter g.hasEntity).Nodup) ∧
        (a.Same b ↔ (seeds.filter g.hasEntity).Nodup) := by
  intro a b
  have ha := g.foundAround_findNeighbors seeds kinds depth now
  have hb := g.foundAround_findNeighbors seeds.eraseDups kinds depth now
  have hexact := h.resolves.exact_neighborhood (seeds.filter g.hasEntity) (max depth 1) kinds
  have hconfidence : a.confidence = b.confidence := by
    rw [confidence_findNeighbors, confidence_findNeighbors, ← eraseDups_filter,
      neighborhood_eraseDups, isEmpty_eraseDups]
  dsimp only at ha hb
  rw [← eraseDups_filter, neighborhood_eraseDups] at hb
  obtain ⟨hrepeats, hnodup, hsame⟩ := repeats_of_foundAround ha hb
    (fun id hid => (List.mem_filter.1 hid).2) hexact.nodup
    fun id hid => ((hexact.mem_iff id).1 hid).1
  refine ⟨hrepeats, hconfidence, hnodup, hsame.trans (and_iff_left ?_)⟩
  exact congrArg ExactScalar.value hconfidence

/-- When one at least of the identifiers is known, and only unknown ones repeat, repetitions change
the share of those that are known. -/
theorem nodup_of_value_knownShare {ids : List String} (hknown : ids.filter g.hasEntity ≠ [])
    (honce : (ids.filter g.hasEntity).Nodup) (heq : ExactScalar.value (g.knownShare ids : S) =
      ExactScalar.value (g.knownShare ids.eraseDups : S)) : ids.Nodup := by
  have hknown' : ids.eraseDups.filter g.hasEntity = ids.filter g.hasEntity := by
    rw [← eraseDups_filter, eraseDups_eq_self_iff.2 honce]
  have hpos : ((ids.filter g.hasEntity).length : ℝ) ≠ 0 := by
    rw [Nat.cast_ne_zero, Ne, List.length_eq_zero_iff]
    exact hknown
  rw [value_knownShare, value_knownShare, hknown', div_eq_mul_inv, div_eq_mul_inv,
    mul_right_inj' hpos, inv_inj] at heq
  exact length_eraseDups_eq_iff.1 (Nat.cast_injective heq).symm

/-- **A search around repeated entities** repeats the entities, and the share of identifiers that
are known is counted with repetitions. -/
theorem Tells.repeats_touchingSearch (h : g.Tells done) (ids kinds : List String) (now : Instant) :
    let a := g.touchingSearch ids kinds now
    let b := g.touchingSearch ids.eraseDups kinds now
    a.Repeats b ∧ (a.nodeIds.Nodup ↔ (ids.filter g.hasEntity).Nodup) ∧
      (a.Same b ↔ ids.filter g.hasEntity = [] ∨ ids.Nodup) := by
  intro a b
  have ha := g.foundAround_touchingSearch ids kinds now
  have hb := g.foundAround_touchingSearch ids.eraseDups kinds now
  dsimp only at ha hb
  rw [← eraseDups_filter, h.touched_eraseDups kinds _ _ (ids.filter g.hasEntity),
    otherEnds_eraseDups] at hb
  obtain ⟨hrepeats, hnodup, hsame⟩ := repeats_of_foundAround ha hb
    (fun id hid => (List.mem_filter.1 hid).2) (nodup_eraseDups _)
    fun id hid => (mem_otherEnds_iff.1 hid).1
  refine ⟨hrepeats, hnodup, hsame.trans ?_⟩
  by_cases hnone : ids.filter g.hasEntity = []
  · have hnone' : ids.eraseDups.filter g.hasEntity = [] := by
      rw [← eraseDups_filter, hnone, List.eraseDups_nil]
    have heq : a = b :=
      (touchingAnswer_eq_empty hnone ..).trans (touchingAnswer_eq_empty hnone' ..).symm
    refine iff_of_true ⟨hnone ▸ List.nodup_nil, ?_⟩ (Or.inl hnone)
    exact congrArg (fun a => ExactScalar.value a.confidence) heq
  · have hsome : ids.eraseDups.filter g.hasEntity ≠ [] := fun hnil => by
      rw [← eraseDups_filter, ← List.isEmpty_iff, isEmpty_eraseDups, List.isEmpty_iff] at hnil
      exact hnone hnil
    rw [or_iff_right hnone]
    constructor
    · rintro ⟨honce, hconfidence⟩
      have hvalue : ExactScalar.value a.confidence = _ :=
        value_confidence_touchingSearch hnone kinds now
      have hvalue' : ExactScalar.value b.confidence = _ :=
        value_confidence_touchingSearch hsome kinds now
      rw [hvalue, hvalue', ← hrepeats.edges_eq, div_left_inj' two_ne_zero, add_left_inj]
        at hconfidence
      exact nodup_of_value_knownShare hnone honce hconfidence
    · intro honce
      have heq : b = a := congrArg (g.touchingSearch · kinds now) (eraseDups_eq_self_iff.2 honce)
      exact ⟨honce.filter _, congrArg (fun a => ExactScalar.value a.confidence) heq.symm⟩

end Graph

/-- **Repetitions count in a graph** where this is told. An identifier that is listed several times
leads to nothing that would not be found if it were listed once. But paths are found as often as
their ends are listed, known identifiers are nodes as often as they are listed when the search
starts from them, and the confidence counts paths and identifiers with repetitions. So the answers
to lists with repetitions and to lists without are the same exactly when

* between two groups, no path has its ends listed several times;
* from some seeds, no known one repeats;
* among some entities, no path has its ends listed several times, and the share of identifiers that
  are known is the same, unless no path is found;
* around some entities, no identifier repeats, unless none is known. -/
structure Graph.CountsRepeats [Scalar S] [ExactScalar S] (g : Graph S) (now : Instant) : Prop where
  findPaths : ∀ (sources targets : List String) (hops : Nat),
    let a := g.findPaths sources targets hops now
    let b := g.findPaths sources.eraseDups targets.eraseDups hops now
    a.Repeats b ∧ a.nodes = b.nodes ∧ (a.paths.Nodup ↔ g.EndsOnce hops sources targets) ∧
      (a.Same b ↔ g.EndsOnce hops sources targets)
  findNeighbors : ∀ (seeds kinds : List String) (depth : Nat),
    let a := g.findNeighbors seeds kinds depth now
    let b := g.findNeighbors seeds.eraseDups kinds depth now
    a.Repeats b ∧ a.confidence = b.confidence ∧
      (a.nodeIds.Nodup ↔ (seeds.filter g.hasEntity).Nodup) ∧
        (a.Same b ↔ (seeds.filter g.hasEntity).Nodup)
  subgraphOf : ∀ (ids : List String) (hops : Nat),
    let a := g.subgraphOf ids hops now
    let b := g.subgraphOf ids.eraseDups hops now
    a.Repeats b ∧ a.nodes = b.nodes ∧ (a.paths.Nodup ↔ g.EndsOnce hops ids ids) ∧
      (a.Same b ↔ g.EndsOnce hops ids ids ∧ (a.paths = [] ∨
        ExactScalar.value (g.knownShare ids : S) =
          ExactScalar.value (g.knownShare ids.eraseDups : S)))
  touchingSearch : ∀ ids kinds : List String,
    let a := g.touchingSearch ids kinds now
    let b := g.touchingSearch ids.eraseDups kinds now
    a.Repeats b ∧ (a.nodeIds.Nodup ↔ (ids.filter g.hasEntity).Nodup) ∧
      (a.Same b ↔ ids.filter g.hasEntity = [] ∨ ids.Nodup)

namespace Graph

/-- **In every graph that can be grown, repetitions count**, in all four searches and for all
lists. -/
theorem countsRepeats_grow [Scalar S] [ExactScalar S] (calls : List (Insertion S)) (now : Instant) :
    (grow empty calls).CountsRepeats now := by
  have h : (grow empty calls).Tells (accepted empty calls) := tells_grow calls
  exact
    { findPaths := fun sources targets hops => h.repeats_findPaths sources targets hops now
      findNeighbors := fun seeds kinds depth => h.repeats_findNeighbors seeds kinds depth now
      subgraphOf := fun ids hops => h.repeats_subgraphOf ids hops now
      touchingSearch := fun ids kinds => h.repeats_touchingSearch ids kinds now }

/-- A seed that is given twice is a node twice. -/
example : let g := grow empty twoRoutes
    (g.findNeighbors ["A", "A"] [] 1 ⟨0, 0⟩).nodeIds = ["A", "A", "C", "B", "D"] := by
  decide +kernel

end Graph

end GraphReasoner
