import GraphReasoner.Proofs.Chain.Layer
import GraphReasoner.Proofs.Graph.PathSearch

/-!
# The paths of a layer

A layer knows its identifiers from the pairs that were put into it, so both ends of a pair are among
its identifiers, and none of them is listed twice. Hence a step can be taken exactly when the pair
has a payload, and no path loses a payload on the way: every simple path carries a chain
(`GraphReasoner.Layer.Carries`), and it carries one chain only.

Paths come in lexicographic order of the places of their identifiers in the layer. What is inferred
from a layer is inferred from the chains of its paths, one after another, and so it comes in the
order of the paths as well.

* `GraphReasoner.Layer.FilledWith.exists_ways` – what the accepted chains yield, in the order of
  their paths.
-/

namespace GraphReasoner

namespace Layer

variable {P : Type} {made : P → Prop} {layer : Layer P}

/-- The place of an identifier. -/
def placeOf (layer : Layer P) (id : String) : Nat :=
  layer.nodes.idxOf id

/-! ### Identifiers and pairs -/

theorem mem_addNode {nodes : List String} {id other : String} :
    other ∈ addNode nodes id ↔ other ∈ nodes ∨ other = id := by
  rw [addNode]
  split
  · rename_i hold
    rw [List.contains_iff_mem] at hold
    exact ⟨Or.inl, fun h => h.elim (fun hin => hin) fun heq => heq ▸ hold⟩
  · rw [List.mem_append, List.mem_singleton]

theorem nodup_addNode {nodes : List String} (h : nodes.Nodup) (id : String) :
    (addNode nodes id).Nodup := by
  rw [addNode]
  split
  · exact h
  · rename_i hnew
    rw [List.contains_iff_mem] at hnew
    exact List.nodup_append.2 ⟨h, List.nodup_singleton id, by
      rintro a ha b hb rfl
      exact hnew (List.mem_singleton.1 hb ▸ ha)⟩

namespace FilledWith

/-- **No identifier is listed twice.** -/
theorem nodup_nodes (h : layer.FilledWith made) : layer.nodes.Nodup := by
  induction h with
  | empty => exact List.nodup_nil
  | insert _ source target _ ih => exact nodup_addNode (nodup_addNode ih source) target

/-- **Both ends of a pair are listed.** -/
theorem ends_mem (h : layer.FilledWith made) :
    ∀ link ∈ layer.links, link.1.1 ∈ layer.nodes ∧ link.1.2 ∈ layer.nodes := by
  induction h with
  | empty => exact nofun
  | @insert layer payload _ source target _ ih =>
    have hmem : ∀ id, id ∈ (layer.insert source target payload).2.nodes ↔
        (id ∈ layer.nodes ∨ id = source) ∨ id = target := fun id => by
      rw [Layer.insert, mem_addNode, mem_addNode]
    intro link hlink
    rw [hmem, hmem]
    rcases mem_putLink hlink with rfl | hold
    · exact ⟨Or.inl (Or.inr rfl), Or.inr rfl⟩
    · obtain ⟨hs, ht⟩ := ih link hold
      exact ⟨Or.inl (Or.inl hs), Or.inl (Or.inl ht)⟩

end FilledWith

theorem exists_payload?_iff {source target : String} :
    (∃ payload, layer.payload? source target = some payload) ↔
      ∃ link ∈ layer.links, link.1 = (source, target) := by
  constructor
  · rintro ⟨payload, h⟩
    exact ⟨_, mem_of_payload? h, rfl⟩
  · rintro ⟨link, hlink, hpair⟩
    rw [← Option.isSome_iff_exists, payload?, Option.isSome_map, List.find?_isSome]
    exact ⟨link, hlink, beq_iff_eq.2 hpair⟩

/-- **A step can be taken exactly when its pair has a payload.** -/
theorem FilledWith.mem_next_iff (h : layer.FilledWith made) {u v : String} :
    v ∈ layer.next u ↔ ∃ payload, layer.payload? u v = some payload := by
  have htargets : v ∈ (layer.links.filter fun link => link.1.1 == u).map (fun link => link.1.2) ↔
      ∃ link ∈ layer.links, link.1 = (u, v) := by
    simp only [List.mem_map, List.mem_filter, beq_iff_eq, and_assoc, Prod.ext_iff]
  rw [next, List.mem_filter, List.contains_iff_mem, htargets, exists_payload?_iff,
    and_iff_right_iff_imp]
  rintro ⟨link, hlink, hpair⟩
  have hend := (h.ends_mem link hlink).2
  rw [hpair] at hend
  exact hend

/-! ### Paths and chains -/

/-- The payloads along a path. -/
def along? (layer : Layer P) (path : List String) : Option (List P) :=
  (Path.pairs path).mapM fun (u, v) => layer.payload? u v

/-- **A path carries a chain**: it leads from a source to a target by at least one and at most
`hops` steps, comes to no identifier twice, and the chain is made of the payloads of its steps. -/
structure Carries (layer : Layer P) (source target : String) (hops : Nat) (path : List String)
    (chain : List P) : Prop where
  head : path.head? = some source
  last : path.getLast? = some target
  nodup : path.Nodup
  steps : List.Forall₂ (fun step payload => layer.payload? step.1 step.2 = some payload)
    (Path.pairs path) chain
  ne_nil : chain ≠ []
  length_le : chain.length ≤ hops

section Carries

variable {source target : String} {hops : Nat} {path : List String} {chain : List P}

theorem Carries.along?_eq (h : layer.Carries source target hops path chain) :
    layer.along? path = some chain :=
  mapM_eq_some_iff.2 h.steps

/-- A path carries one chain only. -/
theorem Carries.unique {chain' : List P} (h : layer.Carries source target hops path chain)
    (h' : layer.Carries source target hops path chain') : chain = chain' :=
  Option.some.inj (h.along?_eq.symm.trans h'.along?_eq)

variable (h : layer.FilledWith made)
include h

theorem FilledWith.of_carries (hcarries : layer.Carries source target hops path chain) :
    ∀ payload ∈ chain, made payload :=
  of_forall₂_payload? h.of_mem_links hcarries.steps

/-- **The simple paths of a layer are those that carry a chain.** -/
theorem FilledWith.mem_simplePaths_iff :
    path ∈ Path.simplePaths layer.next source target hops ↔
      ∃ chain, layer.Carries source target hops path chain := by
  have hsteps : (∀ step ∈ Path.pairs path, step.2 ∈ layer.next step.1) ↔
      ∃ chain, List.Forall₂ (fun step payload => layer.payload? step.1 step.2 = some payload)
        (Path.pairs path) chain := by
    rw [exists_forall₂_iff]
    simp only [h.mem_next_iff]
  rw [Path.mem_simplePaths_iff_steps, hsteps]
  constructor
  · rintro ⟨hhead, hlast, hnodup, ⟨chain, hchain⟩, hone, hlength⟩
    rw [hchain.length_eq] at hone hlength
    exact ⟨chain, hhead, hlast, hnodup, hchain, List.ne_nil_of_length_pos hone, hlength⟩
  · rintro ⟨chain, hhead, hlast, hnodup, hchain, hne, hlength⟩
    rw [← hchain.length_eq] at hlength
    have hone : 1 ≤ (Path.pairs path).length := by
      rw [hchain.length_eq]
      exact List.length_pos_of_ne_nil hne
    exact ⟨hhead, hlast, hnodup, ⟨chain, hchain⟩, hone, hlength⟩

/-- The ends of a path are listed. -/
theorem FilledWith.ends_of_carries (hcarries : layer.Carries source target hops path chain) :
    source ∈ layer.nodes ∧ target ∈ layer.nodes := by
  have hends : ∀ step ∈ Path.pairs path, step.1 ∈ layer.nodes ∧ step.2 ∈ layer.nodes := by
    intro step hstep
    obtain ⟨payload, hpayload⟩ := exists_forall₂_iff.1 ⟨chain, hcarries.steps⟩ step hstep
    exact h.ends_mem _ (mem_of_payload? hpayload)
  obtain ⟨way, rfl⟩ := List.head?_eq_some_iff.1 hcarries.head
  rcases way with _ | ⟨v, way⟩
  · exact absurd (List.forall₂_nil_left_iff.1 hcarries.steps) hcarries.ne_nil
  have hlast : target ∈ v :: way := by
    refine List.mem_of_getLast? ?_
    rw [← hcarries.last, List.getLast?_cons_cons]
  obtain ⟨u, -, hstep⟩ := Path.exists_step_to source hlast
  exact ⟨(hends (source, v) List.mem_cons_self).1, (hends _ hstep).2⟩

/-- **The payloads along the paths of a layer** are those of its simple paths, in the same
order. -/
theorem FilledWith.paths_eq :
    layer.paths source target hops =
      (Path.simplePaths layer.next source target hops).filterMap layer.along? := by
  rw [paths]
  split
  · rfl
  · rename_i hends
    have hnone : Path.simplePaths layer.next source target hops = [] := by
      refine List.eq_nil_iff_forall_not_mem.2 fun path hpath => hends ?_
      obtain ⟨chain, hcarries⟩ := h.mem_simplePaths_iff.1 hpath
      obtain ⟨hsource, htarget⟩ := h.ends_of_carries hcarries
      rw [Bool.and_eq_true, List.contains_iff_mem, List.contains_iff_mem]
      exact ⟨hsource, htarget⟩
    rw [hnone, List.filterMap_nil]

/-! ### The order of the paths -/

/-- The identifiers that a pair leads to come in the order of the layer. -/
theorem FilledWith.pairwise_next (id : String) :
    ((layer.next id).map layer.placeOf).Pairwise (· < ·) := by
  have hall : (layer.nodes.map layer.placeOf).Pairwise (· < ·) := by
    rw [List.pairwise_map, List.pairwise_iff_getElem]
    intro i j hi hj hlt
    rw [placeOf, placeOf, h.nodup_nodes.idxOf_getElem, h.nodup_nodes.idxOf_getElem]
    exact hlt
  exact hall.sublist (List.filter_sublist.map _)

/-- **The paths come in lexicographic order** of the places of their identifiers. -/
theorem FilledWith.pairwise_simplePaths (source target : String) (hops : Nat) :
    ((Path.simplePaths layer.next source target hops).map
      (List.map layer.placeOf)).Pairwise (· < ·) := by
  by_cases hends : source ∈ layer.nodes ∧ target ∈ layer.nodes
  · -- the same paths through places
    let next : Nat → List Nat := fun place =>
      (layer.nodes[place]?.map fun v => (layer.next v).map layer.placeOf).getD []
    have hnext : ∀ v ∈ layer.nodes, (layer.next v).map layer.placeOf = next (layer.placeOf v) :=
      fun v hv => by
        simp only [next]
        rw [placeOf, List.getElem?_idxOf hv]
        rfl
    have hascending : ∀ place, (next place).Pairwise (· < ·) := fun place => by
      simp only [next]
      rcases layer.nodes[place]? with _ | v
      · exact List.Pairwise.nil
      · exact h.pairwise_next v
    have hsame : (Path.simplePaths layer.next source target hops).map (List.map layer.placeOf) =
        Path.simplePaths next (layer.placeOf source) (layer.placeOf target) hops :=
      Path.map_simplePaths (fun v _ w hw => (List.mem_filter.1 hw).1)
        (fun v w hv _ heq => (List.idxOf_inj hv).1 heq) hnext hends.1 hends.2 hops
    rw [hsame]
    exact Path.pairwise_simplePaths hascending _ _ hops
  · have hnone : Path.simplePaths layer.next source target hops = [] := by
      refine List.eq_nil_iff_forall_not_mem.2 fun path hpath => hends ?_
      obtain ⟨chain, hcarries⟩ := h.mem_simplePaths_iff.1 hpath
      exact h.ends_of_carries hcarries
    rw [hnone]
    exact List.Pairwise.nil

/-- What is yielded along the paths of a layer: the chains of the paths yield one thing or nothing
each, and what they yield comes in the order of the paths. -/
theorem FilledWith.exists_ways_filterMap {β : Type} (source target : String) (hops : Nat)
    (yields : List P → Option β) :
    ∃ ways : List (List String), (ways.map (List.map layer.placeOf)).Pairwise (· < ·) ∧
      (∀ way, way ∈ ways ↔
        ∃ chain, layer.Carries source target hops way chain ∧ (yields chain).isSome) ∧
      List.Forall₂ (fun way b =>
          ∃ chain, layer.Carries source target hops way chain ∧ yields chain = some b)
        ways ((layer.paths source target hops).filterMap yields) := by
  let ways := (Path.simplePaths layer.next source target hops).filter fun way =>
    ((layer.along? way).bind yields).isSome
  have hmem : ∀ way, way ∈ ways ↔
      ∃ chain, layer.Carries source target hops way chain ∧ (yields chain).isSome := fun way => by
    rw [List.mem_filter, h.mem_simplePaths_iff]
    constructor
    · rintro ⟨⟨chain, hcarries⟩, hsome⟩
      rw [hcarries.along?_eq] at hsome
      exact ⟨chain, hcarries, hsome⟩
    · rintro ⟨chain, hcarries, hsome⟩
      rw [hcarries.along?_eq]
      exact ⟨⟨chain, hcarries⟩, hsome⟩
  refine ⟨ways, (h.pairwise_simplePaths source target hops).sublist (List.filter_sublist.map _),
    hmem, ?_⟩
  rw [h.paths_eq, List.filterMap_filterMap]
  have hyield := forall₂_filterMap (fun way => (layer.along? way).bind yields)
    (Path.simplePaths layer.next source target hops)
  refine ((List.forall₂_and_left ways _).2 ⟨fun way => (hmem way).1, hyield⟩).imp ?_
  rintro way b ⟨⟨chain, hcarries, -⟩, hb⟩
  rw [hcarries.along?_eq] at hb
  exact ⟨chain, hcarries, hb⟩

/-- **What the accepted chains of a layer yield**: every simple path with an accepted chain yields
one thing, if its chain does, and what they yield comes in the order of the paths. -/
theorem FilledWith.exists_ways {β : Type} (source target : String) (hops : Nat)
    (accepts : List P → Prop) [DecidablePred accepts] (yields : List P → Option β) :
    ∃ ways : List (List String), (ways.map (List.map layer.placeOf)).Pairwise (· < ·) ∧
      (∀ way, way ∈ ways ↔
        ∃ chain, layer.Carries source target hops way chain ∧ accepts chain ∧
          (yields chain).isSome) ∧
      List.Forall₂ (fun way b =>
          ∃ chain, layer.Carries source target hops way chain ∧ accepts chain ∧
            yields chain = some b)
        ways (((layer.paths source target hops).filter fun chain => accepts chain).filterMap
          yields) := by
  obtain ⟨ways, hsorted, hmem, hyields⟩ := h.exists_ways_filterMap source target hops fun chain =>
    if accepts chain then yields chain else none
  refine ⟨ways, hsorted, fun way => ?_, ?_⟩
  · rw [hmem]
    refine exists_congr fun chain => and_congr_right fun _ => ?_
    by_cases haccepts : accepts chain <;> simp [haccepts]
  · rw [List.filterMap_filter]
    simp only [decide_eq_true_eq]
    exact hyields.imp fun way b ⟨chain, hcarries, hb⟩ =>
      ⟨chain, hcarries, Option.ite_none_right_eq_some.1 hb⟩

end Carries

end Layer

end GraphReasoner
