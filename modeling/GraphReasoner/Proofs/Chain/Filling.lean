import GraphReasoner.Proofs.Chain.LayerPaths

/-!
# Filling a layer

A layer is filled by giving payloads to pairs, one after another. What it remembers of this is in
which order the pairs came up first, and which payload each of them was given last. Nothing else
matters (`GraphReasoner.Layer.fill_congr`), and its paths can be told from it
(`GraphReasoner.Layer.exists_ways_fill`).
-/

namespace GraphReasoner

namespace Layer

variable {P : Type}

/-- The payload that a pair was given last. -/
def latest? (calls : List ((String × String) × P)) (pair : String × String) : Option P :=
  (calls.reverse.find? fun call => call.1 == pair).map Prod.snd

/-- The layer in which some pairs were given payloads, one after another. -/
def fill (calls : List ((String × String) × P)) : Layer P :=
  calls.foldl (fun layer call => (layer.insert call.1.1 call.1.2 call.2).2) .empty

variable (calls : List ((String × String) × P))

theorem fill_concat (call : (String × String) × P) :
    fill (calls ++ [call]) = ((fill calls).insert call.1.1 call.1.2 call.2).2 := by
  rw [fill, List.foldl_concat]
  rfl

theorem filledWith_fill : (fill calls).FilledWith fun _ => True := by
  induction calls using List.reverseRecOn with
  | nil => exact .empty
  | append_singleton calls call ih =>
    rw [fill_concat]
    exact ih.insert call.1.1 call.1.2 trivial

/-- **A pair has the payload that it was given last.** -/
theorem payload?_fill (source target : String) :
    (fill calls).payload? source target = latest? calls (source, target) := by
  induction calls using List.reverseRecOn with
  | nil => rfl
  | append_singleton calls call ih =>
    rw [fill_concat, payload?_insert, ih, latest?, latest?, List.reverse_append]
    by_cases hcall : call.1 = (source, target)
    · rw [if_pos hcall]
      simp [hcall]
    · rw [if_neg hcall]
      simp [hcall]

/-- **Every pair is listed once**, in the order in which they came up. -/
theorem map_fst_fill : (fill calls).links.map Prod.fst = (calls.map Prod.fst).eraseDups := by
  induction calls using List.reverseRecOn with
  | nil => rfl
  | append_singleton calls call ih =>
    rw [fill_concat, List.map_append, List.map_singleton, Graph.eraseDups_concat, ← ih, insert,
      map_fst_putLink]
    simp only [ih, List.mem_eraseDups]

/-- Identifiers are listed in the order of their first appearance. -/
theorem addNode_eraseDups (ids : List String) (id : String) :
    addNode ids.eraseDups id = (ids ++ [id]).eraseDups := by
  rw [addNode, Graph.eraseDups_concat]
  simp only [List.contains_iff_mem, List.mem_eraseDups]

theorem nodes_fill : (fill calls).nodes =
    ((calls.map Prod.fst).eraseDups.flatMap fun pair => [pair.1, pair.2]).eraseDups := by
  induction calls using List.reverseRecOn with
  | nil => rfl
  | append_singleton calls call ih =>
    obtain ⟨⟨source, target⟩, payload⟩ := call
    have hnodes : (fill (calls ++ [((source, target), payload)])).nodes =
        addNode (addNode (fill calls).nodes source) target := by
      rw [fill_concat]
      rfl
    rw [hnodes, List.map_append, List.map_singleton, Graph.eraseDups_concat, ih,
      addNode_eraseDups, addNode_eraseDups]
    by_cases hpair : (source, target) ∈ calls.map Prod.fst
    · -- both ends are listed already
      have hends : ∀ id ∈ [source, target],
          id ∈ (calls.map Prod.fst).eraseDups.flatMap fun pair => [pair.1, pair.2] := fun id hid =>
        List.mem_flatMap.2 ⟨_, List.mem_eraseDups.2 hpair, hid⟩
      obtain ⟨hsource, htarget⟩ := List.forall_mem_cons.1 hends
      rw [if_pos hpair, Graph.eraseDups_concat, if_pos, Graph.eraseDups_concat, if_pos hsource]
      exact List.mem_append_left _ (htarget target (List.mem_singleton_self target))
    · rw [if_neg hpair, List.flatMap_append, List.append_assoc]
      rfl

/-- The links of a layer are its pairs with their payloads. -/
theorem links_fill : (fill calls).links = (calls.map Prod.fst).eraseDups.filterMap fun pair =>
    (latest? calls pair).map fun payload => (pair, payload) := by
  rw [← map_fst_fill, List.filterMap_map]
  refine List.filterMap_some.symm.trans (List.filterMap_congr fun link hlink => ?_)
  have hnodup : ((fill calls).links.map Prod.fst).Nodup := by
    rw [map_fst_fill]
    exact Graph.nodup_eraseDups _
  rw [Function.comp_apply, ← payload?_fill, payload?, Graph.find?_of_mem hnodup hlink]
  rfl

variable {calls} in
/-- **A layer remembers the order of the pairs and their last payloads**, and nothing else. -/
theorem fill_congr {calls' : List ((String × String) × P)}
    (hpairs : (calls.map Prod.fst).eraseDups = (calls'.map Prod.fst).eraseDups)
    (hlatest : ∀ pair, latest? calls pair = latest? calls' pair) : fill calls = fill calls' := by
  have hnodes : (fill calls).nodes = (fill calls').nodes := by
    rw [nodes_fill, nodes_fill, hpairs]
  have hlinks : (fill calls).links = (fill calls').links := by
    rw [links_fill, links_fill, hpairs]
    simp only [hlatest]
  exact congrArg₂ mk hnodes hlinks

/-- The steps that can be taken are the pairs that came up. -/
theorem mem_next_fill_iff {u v : String} :
    v ∈ (fill calls).next u ↔ (u, v) ∈ calls.map Prod.fst := by
  rw [(filledWith_fill calls).mem_next_iff, exists_payload?_iff, ← List.mem_eraseDups,
    ← map_fst_fill, List.mem_map]

/-- **The paths of a layer that was filled**: one chain for each, in an order of the paths. -/
theorem exists_ways_fill (source target : String) (hops : Nat) :
    ∃ ways : List (List String), ways.Nodup ∧
      (∀ way, way ∈ ways ↔ way.head? = some source ∧ way.getLast? = some target ∧ way.Nodup ∧
        (∀ step ∈ Path.pairs way, step ∈ calls.map Prod.fst) ∧
        1 ≤ (Path.pairs way).length ∧ (Path.pairs way).length ≤ hops) ∧
      List.Forall₂ (fun way chain =>
          List.Forall₂ (fun step payload => latest? calls step = some payload)
            (Path.pairs way) chain)
        ways ((fill calls).paths source target hops) := by
  have hfilled := filledWith_fill calls
  obtain ⟨ways, hsorted, hmem, hchains⟩ := hfilled.exists_ways_filterMap source target hops some
  rw [List.filterMap_some] at hchains
  refine ⟨ways, ?_, fun way => ?_, hchains.imp ?_⟩
  · refine (List.pairwise_map.1 hsorted).imp fun {way way'} hlt heq => ?_
    rw [heq] at hlt
    exact List.lt_irrefl _ hlt
  · simp only [hmem, Option.isSome_some, and_true, ← hfilled.mem_simplePaths_iff,
      Path.mem_simplePaths_iff_steps, mem_next_fill_iff]
  · rintro way chain ⟨chain', hcarries, heq⟩
    obtain rfl := Option.some.inj heq
    exact hcarries.steps.imp fun step payload hstep => payload?_fill calls step.1 step.2 ▸ hstep

end Layer

end GraphReasoner
