import GraphReasoner.Proofs.Query.WellFormed
import Mathlib.Tactic.Ring

/-!
# Answers that are unions of paths

The search between two groups of entities and the search among some entities go through pairs of
identifiers, and each pair contributes its simple paths. A path tells the pair it comes from, since
it begins with the one and ends with the other. So a path is found as often as its two ends are
taken for a pair, which is the product of how often each end is listed
(`GraphReasoner.Graph.Tells.count_pathsBetween`, `GraphReasoner.Graph.Tells.count_pathsAmong`).
Among some entities every pair is searched in both directions, so here, too, the order of the pairs
does not count.

From this everything follows. In lists without repetitions each path is found once, and the answer
is the union of the paths (`GraphReasoner.Query.Answer.Unites`): its nodes are their vertices, and
its edges the relations along their steps. When the identifiers are listed in another order, the
same paths are found in another order, and with them the same nodes and edges.

* `GraphReasoner.Graph.unites_grow` – every answer that is made of paths is their union.
-/

namespace GraphReasoner

open GraphReasoner.Query
open GraphReasoner.Time (Instant)

variable {S : Type}

namespace Graph

variable {g : Graph S} {hops : Nat} {source target : String} {path : List String}

/-! ### How often a path is found -/

/-- A path leads from its source to its target, and these differ. -/
theorem ends_of_mem_simplePaths (h : path ∈ g.simplePaths source target hops) :
    source ≠ target ∧ path.head? = some source ∧ path.getLast? = some target := by
  rw [simplePaths] at h
  split at h
  · obtain ⟨hne, hsimple⟩ := Path.mem_simplePaths_iff.1 h
    exact ⟨hne, hsimple.head, hsimple.last⟩
  · cases h

theorem simplePaths_self (g : Graph S) (id : String) (hops : Nat) :
    g.simplePaths id id hops = [] :=
  List.eq_nil_iff_forall_not_mem.2 fun _ h => (ends_of_mem_simplePaths h).1 rfl

/-- A path is among the paths between its own ends only. -/
theorem count_simplePaths_eq_zero (h : path ∈ g.simplePaths source target hops)
    {source' target' : String} (hne : source' ≠ source ∨ target' ≠ target) :
    (g.simplePaths source' target' hops).count path = 0 := by
  refine List.count_eq_zero.2 fun h' => ?_
  obtain ⟨-, hhead, hlast⟩ := ends_of_mem_simplePaths h
  obtain ⟨-, hhead', hlast'⟩ := ends_of_mem_simplePaths h'
  rcases hne with hne | hne
  · exact hne (Option.some.inj (hhead'.symm.trans hhead))
  · exact hne (Option.some.inj (hlast'.symm.trans hlast))

/-- The simple paths from every source to every target. -/
def pathsBetween (g : Graph S) (hops : Nat) (sources targets : List String) :
    List (List String) :=
  sources.flatMap fun s => targets.flatMap fun t => g.simplePaths s t hops

theorem mem_pathsBetween_iff {sources targets : List String} :
    path ∈ g.pathsBetween hops sources targets ↔
      ∃ s ∈ sources, ∃ t ∈ targets, path ∈ g.simplePaths s t hops := by
  simp only [pathsBetween, List.mem_flatMap]

section Count

variable [Scalar S] {done : List (Insertion S)} (h : g.Tells done)
include h

theorem Tells.count_simplePaths (hpath : path ∈ g.simplePaths source target hops) :
    (g.simplePaths source target hops).count path = 1 :=
  List.nodup_iff_count_eq_one.1 (h.nodup_simplePaths source target hops) path hpath

/-- **Between two groups a path is found as often as its ends are listed.** -/
theorem Tells.count_pathsBetween (hpath : path ∈ g.simplePaths source target hops)
    (sources targets : List String) : (g.pathsBetween hops sources targets).count path =
      sources.count source * targets.count target := by
  have hsource : ∀ s, s ≠ source →
      (targets.flatMap fun t => g.simplePaths s t hops).count path = 0 := by
    intro s hs
    refine List.count_eq_zero.2 fun hin => ?_
    obtain ⟨t, -, hin⟩ := List.mem_flatMap.1 hin
    exact List.count_eq_zero.1 (count_simplePaths_eq_zero hpath (Or.inl hs)) hin
  rw [pathsBetween, Path.count_flatMap_of_eq_zero hsource,
    Path.count_flatMap_of_eq_zero fun t ht => count_simplePaths_eq_zero hpath (Or.inr ht),
    h.count_simplePaths hpath, Nat.mul_one]

/-- An identifier and a list make a pair with the ends of a path as often as the one is an end and
the other end is in the list. -/
theorem Tells.count_flatMap_simplePaths (hpath : path ∈ g.simplePaths source target hops)
    (a : String) (rest : List String) :
    (rest.flatMap fun b => g.simplePaths a b hops ++ g.simplePaths b a hops).count path =
      (if a = source then rest.count target else 0) +
        (if a = target then rest.count source else 0) := by
  have hne : source ≠ target := (ends_of_mem_simplePaths hpath).1
  have hone := h.count_simplePaths hpath
  by_cases hs : a = source
  · subst hs
    rw [if_pos rfl, if_neg hne, Path.count_flatMap_of_eq_zero (v := target), List.count_append,
      hone, count_simplePaths_eq_zero hpath (Or.inr hne), Nat.mul_one, Nat.add_zero]
    intro b hb
    rw [List.count_append, count_simplePaths_eq_zero hpath (Or.inr hb),
      count_simplePaths_eq_zero hpath (Or.inr hne)]
  · rw [if_neg hs, Nat.zero_add]
    by_cases ht : a = target
    · subst ht
      rw [if_pos rfl, Path.count_flatMap_of_eq_zero (v := source), List.count_append, hone,
        count_simplePaths_eq_zero hpath (Or.inl hs), Nat.zero_add, Nat.mul_one]
      intro b hb
      rw [List.count_append, count_simplePaths_eq_zero hpath (Or.inl hs),
        count_simplePaths_eq_zero hpath (Or.inl hb)]
    · rw [if_neg ht]
      refine List.count_eq_zero.2 fun hin => ?_
      obtain ⟨b, -, hin⟩ := List.mem_flatMap.1 hin
      rcases List.mem_append.1 hin with hin | hin
      · exact List.count_eq_zero.1 (count_simplePaths_eq_zero hpath (Or.inl hs)) hin
      · exact List.count_eq_zero.1 (count_simplePaths_eq_zero hpath (Or.inr ht)) hin

/-- **Among some entities, too, a path is found as often as its ends are listed**: a pair is taken
with the one end first or with the other, and either way it is searched in the right direction. -/
theorem Tells.count_pathsAmong (hpath : path ∈ g.simplePaths source target hops)
    (ids : List String) :
    (g.pathsAmong hops ids).count path = ids.count source * ids.count target := by
  have hne : source ≠ target := (ends_of_mem_simplePaths hpath).1
  induction ids with
  | nil => rfl
  | cons a rest ih =>
    rw [pathsAmong, List.count_append, h.count_flatMap_simplePaths hpath, ih, List.count_cons,
      List.count_cons]
    simp only [beq_iff_eq]
    by_cases hs : a = source
    · subst hs
      rw [if_pos rfl, if_neg hne, if_pos rfl, if_neg hne]
      ring
    · by_cases ht : a = target
      · subst ht
        rw [if_neg hs, if_pos rfl, if_neg hs, if_pos rfl]
        ring
      · rw [if_neg hs, if_neg ht, if_neg hs, if_neg ht]
        ring

theorem Tells.mem_pathsAmong_iff {ids : List String} : path ∈ g.pathsAmong hops ids ↔
    ∃ s ∈ ids, ∃ t ∈ ids, path ∈ g.simplePaths s t hops := by
  constructor
  · intro hin
    obtain ⟨s, t, hpath⟩ := mem_pathsAmong hin
    have hpos := List.count_pos_iff.2 hin
    rw [h.count_pathsAmong hpath] at hpos
    exact ⟨s, List.count_pos_iff.1 (Nat.pos_of_mul_pos_right hpos), t,
      List.count_pos_iff.1 (Nat.pos_of_mul_pos_left hpos), hpath⟩
  · rintro ⟨s, hs, t, ht, hpath⟩
    rw [← List.count_pos_iff, h.count_pathsAmong hpath]
    exact Nat.mul_pos (List.count_pos_iff.2 hs) (List.count_pos_iff.2 ht)

omit [Scalar S] h in
/-- When it is known how often the paths between two ends are found, it is known when no path is
found twice. -/
theorem nodup_iff_of_count {paths : List (List String)} {times : String → String → Nat}
    (hmem : ∀ path ∈ paths, ∃ s t, path ∈ g.simplePaths s t hops)
    (hcount : ∀ {s t path}, path ∈ g.simplePaths s t hops → paths.count path = times s t) :
    paths.Nodup ↔ ∀ s t, g.simplePaths s t hops ≠ [] → times s t ≤ 1 := by
  rw [List.nodup_iff_count_le_one]
  constructor
  · intro hle s t hsome
    obtain ⟨path, hpath⟩ := List.exists_mem_of_ne_nil _ hsome
    exact hcount hpath ▸ hle path
  · intro hends path
    by_cases hin : path ∈ paths
    · obtain ⟨s, t, hpath⟩ := hmem path hin
      exact hcount hpath ▸ hends s t (List.ne_nil_of_mem hpath)
    · rw [List.count_eq_zero.2 hin]
      exact Nat.zero_le 1

/-- **Between two groups no path is found twice** exactly when none has its ends listed more than
once. -/
theorem Tells.nodup_pathsBetween_iff {sources targets : List String} :
    (g.pathsBetween hops sources targets).Nodup ↔
      ∀ s t, g.simplePaths s t hops ≠ [] → sources.count s * targets.count t ≤ 1 := by
  refine nodup_iff_of_count (fun path hin => ?_) fun hpath => h.count_pathsBetween hpath _ _
  obtain ⟨s, -, t, -, hpath⟩ := mem_pathsBetween_iff.1 hin
  exact ⟨s, t, hpath⟩

/-- **Among some entities no path is found twice** exactly when none has its ends listed more than
once. -/
theorem Tells.nodup_pathsAmong_iff {ids : List String} : (g.pathsAmong hops ids).Nodup ↔
    ∀ s t, g.simplePaths s t hops ≠ [] → ids.count s * ids.count t ≤ 1 :=
  nodup_iff_of_count (fun _ => mem_pathsAmong) fun hpath => h.count_pathsAmong hpath _

/-- **In which order the entities are listed** makes no difference to which paths are found among
them, or how often. -/
theorem Tells.pathsAmong_perm {ids ids' : List String} (hperm : ids.Perm ids') :
    (g.pathsAmong hops ids).Perm (g.pathsAmong hops ids') := by
  refine List.perm_iff_count.2 fun path => ?_
  by_cases hsome : ∃ s t, path ∈ g.simplePaths s t hops
  · obtain ⟨s, t, hpath⟩ := hsome
    rw [h.count_pathsAmong hpath, h.count_pathsAmong hpath, hperm.count_eq, hperm.count_eq]
  · rw [List.count_eq_zero.2 fun hin => hsome (mem_pathsAmong hin),
      List.count_eq_zero.2 fun hin => hsome (mem_pathsAmong hin)]

end Count

/-! ### The answer to some paths -/

/-- Of the identifiers that are bound, the nodes of an answer have each once more. -/
theorem map_id_answerNodes (g : Graph S) (ids : List String) :
    (g.answerNodes ids).map AnswerNode.id = ids.filter g.hasEntity := by
  induction ids with
  | nil => rfl
  | cons id ids ih =>
    rcases hentity : g.entity? id with _ | e
    · have hnone : ¬g.hasEntity id = true := fun hsome => by
        obtain ⟨e, he⟩ := hasEntity_iff.1 hsome
        cases hentity.symm.trans he
      rw [List.filter_cons_of_neg hnone, ← ih, answerNodes, List.filterMap_cons_none hentity,
        answerNodes]
    · rw [List.filter_cons_of_pos (hasEntity_iff.2 ⟨e, hentity⟩), ← ih, answerNodes,
        List.filterMap_cons_some hentity, List.map_cons, List.map_cons, answerNodes]
      exact congrArg (· :: _) (id_of_entity? hentity)

end Graph

/-- **An answer is the union of some paths**: it lists each of them once, its nodes are their
vertices in the order of first appearance, and its edges are all relations of the graph, of any
type, between consecutive vertices of one of them, each once. -/
structure Query.Answer.Unites (a : Answer S) (g : Graph S) (wanted : List String → Prop) :
    Prop where
  paths_nodup : a.paths.Nodup
  mem_paths_iff : ∀ path, path ∈ a.paths ↔ wanted path
  nodeIds_eq : a.nodeIds = a.paths.flatten.eraseDups
  nodes : ∀ n ∈ a.nodes, ∃ e ∈ g.entities, n = AnswerNode.ofEntity e
  edges : ∃ relations : List (Relation S), a.edges = relations.map AnswerEdge.ofRelation ∧
    (relations.map Relation.triple).Nodup ∧
      ∀ r, r ∈ relations ↔
        r ∈ g.relations ∧ ∃ path ∈ a.paths, (r.source.id, r.target.id) ∈ Path.pairs path

/-- **Two answers differ in their order only.** -/
structure Query.Answer.Reordered (a b : Answer S) : Prop where
  nodes : a.nodes.Perm b.nodes
  edges : a.edges.Perm b.edges
  paths : a.paths.Perm b.paths
  confidence : a.confidence = b.confidence

namespace Graph

variable [Scalar S] {g : Graph S} {hops : Nat} {paths : List (List String)}
  {done : List (Insertion S)}

/-- Paths of the graph that are all different make up their union. -/
theorem Tells.unites_answerOfPaths (h : g.Tells done) {wanted : List String → Prop}
    (hpaths : ∀ path ∈ paths, g.Traces path) (hnodup : paths.Nodup)
    (hmem : ∀ path, path ∈ paths ↔ wanted path) (kind : Kind) (confidence : S) (now : Instant) :
    (g.answerOfPaths kind paths confidence now).Unites g wanted where
  paths_nodup := hnodup
  mem_paths_iff := hmem
  nodeIds_eq := by
    refine (g.map_id_answerNodes _).trans (List.filter_eq_self.2 fun id hid => ?_)
    obtain ⟨path, hpath, hid⟩ := List.mem_flatten.1 (List.mem_eraseDups.1 hid)
    exact (hpaths path hpath).hasEntity id hid
  nodes _ := exists_entity_of_answerNodes
  edges := by
    refine ⟨_, rfl, (h.spans_steps paths).nodup, fun r => ?_⟩
    simp only [List.mem_flatMap, List.mem_eraseDups, mem_between_iff]
    constructor
    · rintro ⟨step, ⟨path, hpath, hstep⟩, hr, hsource, htarget⟩
      refine ⟨hr, path, hpath, ?_⟩
      rw [hsource, htarget]
      exact hstep
    · rintro ⟨hr, path, hpath, hstep⟩
      exact ⟨_, ⟨path, hpath, hstep⟩, hr, rfl, rfl⟩

theorem findPaths_eq (g : Graph S) (sources targets : List String) (hops : Nat) (now : Instant) :
    g.findPaths sources targets hops now =
      g.answerOfPaths .path (g.pathsBetween hops sources targets)
        (Scalar.lesser (((g.pathsBetween hops sources targets).length : S) / 5.0) 1.0) now := by
  have hpaths : (sources.flatMap fun s => targets.flatMap fun t =>
      if s == t then [] else g.simplePaths s t hops) = g.pathsBetween hops sources targets := by
    refine List.flatMap_congr fun s _ => List.flatMap_congr fun t _ => ?_
    by_cases hends : s = t
    · rw [if_pos (beq_iff_eq.2 hends), hends, simplePaths_self]
    · rw [if_neg (by simpa using hends)]
  rw [findPaths, hpaths]

/-- Whether there is a path or none, all but the confidence is that of the union of the paths. -/
theorem subgraph_eq (g : Graph S) (ids : List String) (hops : Nat) (coverage : S)
    (now : Instant) :
    let a := g.subgraph ids hops coverage now
    a = g.answerOfPaths .subgraph (g.pathsAmong hops ids) a.confidence now := by
  intro a
  by_cases hnone : g.pathsAmong hops ids = []
  · have ha : a = Answer.empty .subgraph now := subgraph_eq_empty hnone coverage now
    rw [hnone, ha]
    rfl
  · have ha : a = g.answerOfPaths .subgraph (g.pathsAmong hops ids)
        (Scalar.clampUnit ((coverage + edgeDensity a.nodes.length a.edges) / 2.0)) now :=
      subgraph_eq_answerOfPaths hnone coverage now
    have hconfidence := congrArg Answer.confidence ha
    rw [hconfidence]
    exact ha

/-- The confidence is put together from the coverage and the density of what is found, unless
nothing is found. -/
theorem confidence_subgraph (g : Graph S) (ids : List String) (hops : Nat) (coverage : S)
    (now : Instant) :
    let a := g.subgraph ids hops coverage now
    a.confidence = if g.pathsAmong hops ids = [] then 0.0
      else Scalar.clampUnit ((coverage + edgeDensity a.nodes.length a.edges) / 2.0) := by
  intro a
  split
  · rename_i hnone
    exact congrArg Answer.confidence (subgraph_eq_empty hnone coverage now)
  · rename_i hsome
    exact congrArg Answer.confidence (subgraph_eq_answerOfPaths hsome coverage now)

/-! ### Entities in another order -/

omit [Scalar S] in
theorem eraseDups_perm {α : Type} [BEq α] [LawfulBEq α] {items others : List α}
    (h : ∀ a, a ∈ items ↔ a ∈ others) : items.eraseDups.Perm others.eraseDups := by
  refine (List.perm_ext_iff_of_nodup (nodup_eraseDups _) (nodup_eraseDups _)).2 fun a => ?_
  rw [List.mem_eraseDups, List.mem_eraseDups, h]

/-- **The same paths in another order** make up the same nodes and edges in another order. -/
theorem reordered_of_perm {paths' : List (List String)} (h : paths.Perm paths') {a b : Answer S}
    {kind : Kind} {now : Instant} (ha : a = g.answerOfPaths kind paths a.confidence now)
    (hb : b = g.answerOfPaths kind paths' b.confidence now)
    (hconfidence : a.nodes.length = b.nodes.length → a.edges.Perm b.edges →
      a.confidence = b.confidence) : a.Reordered b := by
  have hids : paths.flatten.eraseDups.Perm paths'.flatten.eraseDups :=
    eraseDups_perm fun id => h.flatten.mem_iff
  have hsteps : (steps paths).Perm (steps paths') :=
    eraseDups_perm fun step => (h.flatMap_right Path.pairs).mem_iff
  have hnodes : a.nodes.Perm b.nodes := by
    rw [congrArg Answer.nodes ha, congrArg Answer.nodes hb]
    exact (hids.filterMap g.entity?).map AnswerNode.ofEntity
  have hedges : a.edges.Perm b.edges := by
    rw [congrArg Answer.edges ha, congrArg Answer.edges hb]
    exact (hsteps.flatMap_right fun step => g.between step.1 step.2).map AnswerEdge.ofRelation
  refine ⟨hnodes, hedges, ?_, hconfidence hnodes.length_eq hedges⟩
  rw [congrArg Answer.paths ha, congrArg Answer.paths hb]
  exact h

/-- The density of an answer does not depend on the order of its edges. -/
theorem edgeDensity_perm {edges edges' : List (AnswerEdge S)} (h : edges.Perm edges')
    (nodes : Nat) : (edgeDensity nodes edges : S) = edgeDensity nodes edges' := by
  have hlength : (edges.map fun e => (e.source, e.target)).eraseDups.length =
      (edges'.map fun e => (e.source, e.target)).eraseDups.length :=
    (eraseDups_perm fun _ => (h.map _).mem_iff).length_eq
  unfold edgeDensity
  dsimp only
  rw [hlength]

theorem knownShare_perm (g : Graph S) {ids ids' : List String} (h : ids.Perm ids') :
    (g.knownShare ids : S) = g.knownShare ids' := by
  have hknown : (ids.filter g.hasEntity).length = (ids'.filter g.hasEntity).length :=
    (h.filter _).length_eq
  rw [knownShare, knownShare, h.isEmpty_eq, hknown, h.length_eq]

/-- **In which order the entities are listed** makes no difference to what is found among them, and
none to the confidence. -/
theorem Tells.reordered_subgraphOf (h : g.Tells done) {ids ids' : List String}
    (hperm : ids.Perm ids') (hops : Nat) (now : Instant) :
    (g.subgraphOf ids hops now).Reordered (g.subgraphOf ids' hops now) := by
  have hpaths : (g.pathsAmong hops ids).Perm (g.pathsAmong hops ids') := h.pathsAmong_perm hperm
  refine reordered_of_perm hpaths (g.subgraph_eq ids hops _ now) (g.subgraph_eq ids' hops _ now) ?_
  intro hnodes hedges
  have hnone : g.pathsAmong hops ids = [] ↔ g.pathsAmong hops ids' = [] := by
    rw [← List.length_eq_zero_iff, ← List.length_eq_zero_iff, hpaths.length_eq]
  unfold subgraphOf at hnodes hedges ⊢
  rw [confidence_subgraph, confidence_subgraph, hnodes, edgeDensity_perm hedges,
    g.knownShare_perm hperm]
  exact if_congr hnone rfl rfl

/-! ### Both searches for paths -/

/-- **Every answer that is made of paths is their union**, in every graph that can be grown, for
lists of identifiers without repetitions. Between two groups these are the simple paths of at most
so many steps from a source to a target that is another entity, and among some entities those from
one of them to another, in either direction. Among some entities the order in which they are listed
makes no difference to the paths, nodes, edges and confidence of the answer, but for their order. -/
theorem unites_grow (calls : List (Insertion S)) (hops : Nat) (now : Instant) :
    let g := grow empty calls
    (∀ sources targets : List String, sources.Nodup → targets.Nodup →
      (g.findPaths sources targets hops now).Unites g fun path =>
        ∃ s ∈ sources, ∃ t ∈ targets, s ≠ t ∧ Path.Simple g.targets s t hops path) ∧
    ∀ ids : List String, ids.Nodup →
      ((g.subgraphOf ids hops now).Unites g fun path =>
        ∃ s ∈ ids, ∃ t ∈ ids, s ≠ t ∧ Path.Simple g.targets s t hops path) ∧
      ∀ ids', ids.Perm ids' →
        (g.subgraphOf ids hops now).Reordered (g.subgraphOf ids' hops now) := by
  intro g
  have h : g.Tells (accepted empty calls) := tells_grow calls
  refine ⟨fun sources targets hsources htargets => ?_, fun ids hids => ⟨?_, fun ids' hperm => ?_⟩⟩
  · rw [findPaths_eq]
    refine h.unites_answerOfPaths (fun path hpath => ?_) ?_ (fun path => ?_) .path _ now
    · obtain ⟨s, -, t, -, hpath⟩ := mem_pathsBetween_iff.1 hpath
      exact h.resolves.traces hpath
    · refine h.nodup_pathsBetween_iff.2 fun s t _ => ?_
      exact Nat.mul_le_mul (List.nodup_iff_count_le_one.1 hsources s)
        (List.nodup_iff_count_le_one.1 htargets t)
    · simp only [mem_pathsBetween_iff, h.resolves.mem_simplePaths_iff]
  · rw [subgraphOf, subgraph_eq]
    refine h.unites_answerOfPaths (fun path hpath => ?_) ?_ (fun path => ?_) .subgraph _ now
    · obtain ⟨s, t, hpath⟩ := mem_pathsAmong hpath
      exact h.resolves.traces hpath
    · refine h.nodup_pathsAmong_iff.2 fun s t _ => ?_
      exact Nat.mul_le_mul (List.nodup_iff_count_le_one.1 hids s)
        (List.nodup_iff_count_le_one.1 hids t)
    · simp only [h.mem_pathsAmong_iff, h.resolves.mem_simplePaths_iff]
  · exact h.reordered_subgraphOf hperm hops now

/-- Of three entities there are paths from one to each other one, and listing them backwards finds
the same. -/
theorem unites_grow_twoRoutes :
    let g := grow empty twoRoutes
    let a := g.subgraphOf ["D", "B", "A"] 3 ⟨0, 0⟩
    let b := g.subgraphOf ["A", "B", "D"] 3 ⟨0, 0⟩
    (∀ path, path ∈ (g.findPaths ["D", "A"] ["A", "B"] 3 ⟨0, 0⟩).paths ↔
      ∃ s ∈ ["D", "A"], ∃ t ∈ ["A", "B"], s ≠ t ∧ Path.Simple g.targets s t 3 path) ∧
    a.paths = [["D", "A", "B"], ["D", "A", "C", "B"], ["D", "A"], ["A", "B"], ["A", "C", "B"]] ∧
    b.paths = [["A", "B"], ["A", "C", "B"], ["D", "A"], ["D", "A", "B"], ["D", "A", "C", "B"]] ∧
    a.nodeIds = a.paths.flatten.eraseDups ∧ a.Reordered b := by
  intro g a b
  obtain ⟨hbetween, hamong⟩ := unites_grow twoRoutes 3 ⟨0, 0⟩
  obtain ⟨hunites, hreordered⟩ := hamong ["D", "B", "A"] (by decide)
  refine ⟨(hbetween ["D", "A"] ["A", "B"] (by decide) (by decide)).mem_paths_iff,
    by decide +kernel, by decide +kernel, hunites.nodeIds_eq,
    hreordered ["A", "B", "D"] (by decide)⟩

end Graph

end GraphReasoner
