import GraphReasoner.Graph.DepthFirst
import GraphReasoner.Proofs.Graph.Path
import Mathlib.Data.List.Lex
import Mathlib.Logic.Relation

/-!
# What a depth-first search finds

The state of a search describes what is still to come: each list of untried items belongs to a
beginning of the path, and what it will yield is told by a recursion that knows neither a stack nor
an end (`GraphReasoner.DepthFirst.Plan.yields`). A step moves a part of this from the stack to what
was found and changes nothing else (`GraphReasoner.DepthFirst.Plan.Leads.found_append`), so at the
end, when the stack is empty, everything that was to come has been found, in the same order. This
needs no invariant: a node that is visited is marked on top of the others, and unmarking it gives
the others back.

The path, the marks and the room for the path are tied by `GraphReasoner.DepthFirst.Plan.Aligned`,
which every state of a search satisfies.
-/

namespace GraphReasoner

/-- **Taking steps to the end** is taking steps, and ends where there is none to take. -/
theorem reaches_exhaust {σ : Type} (step : σ → Option σ) (size : σ → Nat)
    (smaller : ∀ s s', step s = some s' → size s' < size s) (s : σ) :
    Relation.ReflTransGen (fun s s' => step s = some s') s (exhaust step size smaller s) ∧
      step (exhaust step size smaller s) = none := by
  induction s using exhaust.induct step size smaller with
  | case1 s hs =>
    rw [exhaust]
    split
    · exact ⟨Relation.ReflTransGen.refl, hs⟩
    · rename_i s' hs'
      cases hs.symm.trans hs'
  | case2 s s' hs ih =>
    rw [exhaust]
    split
    · rename_i hs'
      cases hs.symm.trans hs'
    · rename_i s'' hs''
      obtain rfl := Option.some.inj (hs.symm.trans hs'')
      exact ⟨Relation.ReflTransGen.head hs ih.1, ih.2⟩

namespace DepthFirst

variable {ν ε β : Type} [DecidableEq ν]

namespace Plan

variable (p : Plan ν ε β)

/-- One step leads from a state to another. -/
def Leads (s s' : State ν ε β) : Prop :=
  p.step s = some s'

/-- **A search comes to an end**, where nothing is left to be tried. -/
theorem reaches_run (s : State ν ε β) :
    Relation.ReflTransGen p.Leads s (p.run s) ∧ p.step (p.run s) = none :=
  reaches_exhaust p.step p.size p.size_step s

/-! ### What is still to come -/

/-- What some items yield, when paths get at most so many items longer. -/
def yields : Nat → List ν → List ε → List ε → List β
  | 0, _, _, _ => []
  | depth + 1, visited, path, items =>
    items.flatMap fun item =>
      match p.target? item with
      | none => []
      | some node =>
        if node ∈ visited then []
        else (p.emit (item :: path)).toList ++
          if p.goesOn node then yields depth (node :: visited) (item :: path) (p.next node) else []

/-- What the items on the stack yield. -/
def outstanding : List ε → List ν → List (List ε) → List β
  | _, _, [] => []
  | path, visited, untried :: rest =>
    p.yields (p.room - path.length + 1) visited path untried ++
      outstanding path.tail (p.unmark path visited) rest

variable {p} {s s' : State ν ε β}

theorem unmark_cons {item : ε} {node : ν} (hnode : p.target? item = some node) (path : List ε)
    (visited : List ν) : p.unmark (item :: path) (node :: visited) = visited := by
  simp [unmark, hnode]

section Yields

variable {path untried : List ε} {visited : List ν} {item : ε} {depth : Nat}

/-- An item that leads nowhere new yields nothing. -/
theorem yields_cons_of_mem (hold : ∀ node, p.target? item = some node → node ∈ visited) :
    p.yields (depth + 1) visited path (item :: untried) =
      p.yields (depth + 1) visited path untried := by
  rw [yields, List.flatMap_cons, ← yields]
  rcases hnode : p.target? item with _ | node
  · rfl
  · simp only [if_pos (hold node hnode)]
    rfl

/-- An item that leads to a new node yields what its path does, and then what comes behind it. -/
theorem yields_cons_of_not_mem {node : ν} (hnode : p.target? item = some node)
    (hnew : node ∉ visited) : p.yields (depth + 1) visited path (item :: untried) =
      (p.emit (item :: path)).toList ++ ((if p.goesOn node then
        p.yields depth (node :: visited) (item :: path) (p.next node) else []) ++
          p.yields (depth + 1) visited path untried) := by
  rw [yields, List.flatMap_cons, ← yields, hnode]
  simp only [if_neg hnew, List.append_assoc]

end Yields

/-- **A step moves what is to come to what was found.** -/
theorem Leads.found_append (h : p.Leads s s') :
    s'.found ++ p.outstanding s'.path s'.visited s'.pending =
      s.found ++ p.outstanding s.path s.visited s.pending := by
  cases p.move_of_step h with
  | back path visited rest found => rw [outstanding, yields, List.flatMap_nil, List.nil_append]
  | @skip path visited item untried rest found hold =>
    rw [outstanding, outstanding, yields_cons_of_mem hold]
  | @descend path visited item node untried rest found hnode hnew hgoes hroom =>
    -- the items at the new node are what comes first
    have hdepth : p.room - (path.length + 1) + 1 = p.room - path.length := by omega
    rw [outstanding, outstanding, outstanding, yields_cons_of_not_mem hnode hnew, if_pos hgoes,
      List.length_cons, hdepth, unmark_cons hnode, List.tail_cons]
    simp only [List.append_assoc]
  | @stay path visited item node untried rest found hnode hnew hstop =>
    have hnone : (if p.goesOn node then
        p.yields (p.room - path.length) (node :: visited) (item :: path) (p.next node)
        else []) = [] := by
      split
      · rename_i hgoes
        have hlong : ¬path.length < p.room := fun hlt => hstop ⟨hgoes, hlt⟩
        rw [Nat.sub_eq_zero_of_le (Nat.le_of_not_lt hlong), yields]
      · rfl
    rw [outstanding, outstanding, yields_cons_of_not_mem hnode hnew, hnone]
    simp only [List.nil_append, List.append_assoc]

/-- A search that cannot take a step has nothing left to try. -/
theorem pending_of_step_eq_none (h : p.step s = none) : s.pending = [] := by
  unfold step at h
  split at h
  · assumption
  · cases h
  · split at h
    · cases h
    · split at h
      · cases h
      · simp only at h
        split at h <;> cases h

/-- **A search finds what was to come when it started**, in the same order. -/
theorem found_run (p : Plan ν ε β) (s : State ν ε β) :
    (p.run s).found = s.found ++ p.outstanding s.path s.visited s.pending := by
  obtain ⟨hreaches, hend⟩ := p.reaches_run s
  have hsame : (p.run s).found ++
      p.outstanding (p.run s).path (p.run s).visited (p.run s).pending =
        s.found ++ p.outstanding s.path s.visited s.pending := by
    generalize p.run s = final at hreaches
    induction hreaches with
    | refl => rfl
    | tail _ hstep ih => exact hstep.found_append.trans ih
  rw [pending_of_step_eq_none hend, outstanding, List.append_nil] at hsame
  exact hsame

/-! ### The alignment of the state -/

/-- **The state is aligned**: the visited nodes are those of the path, on top of some that were
visited before, no node is visited twice, and the path is not too long. -/
structure Aligned (p : Plan ν ε β) (before : List ν) (s : State ν ε β) : Prop where
  visited : s.visited = s.path.filterMap p.target? ++ before
  nodup : s.visited.Nodup
  length_le : s.path.length ≤ p.room

theorem Aligned.step {before : List ν} (ha : p.Aligned before s) (h : p.Leads s s') :
    p.Aligned before s' := by
  obtain ⟨hvisited, hnodup, hlength⟩ := ha
  cases p.move_of_step h with
  | back path visited rest found =>
    simp only at hvisited hnodup hlength
    subst hvisited
    rcases path with _ | ⟨item, path⟩
    · exact ⟨rfl, hnodup, hlength⟩
    · have hshorter : path.length ≤ p.room := Nat.le_of_succ_le hlength
      rcases hnode : p.target? item with _ | node
      · rw [List.filterMap_cons_none hnode] at hnodup
        refine ⟨?_, ?_, hshorter⟩ <;> simp [unmark, hnode, hnodup]
      · rw [List.filterMap_cons_some hnode, List.cons_append] at hnodup
        refine ⟨?_, ?_, hshorter⟩ <;>
          simp only [List.filterMap_cons_some hnode, List.cons_append, unmark_cons hnode]
        · rfl
        · exact (List.nodup_cons.1 hnodup).2
  | skip => exact ⟨hvisited, hnodup, hlength⟩
  | descend untried rest found hnode hnew _ hroom =>
    refine ⟨?_, List.nodup_cons.2 ⟨hnew, hnodup⟩, hroom⟩
    rw [List.filterMap_cons_some hnode, List.cons_append, ← hvisited]
  | stay => exact ⟨hvisited, hnodup, hlength⟩

/-- **A search stays aligned.** -/
theorem Aligned.reaches {before : List ν} (ha : p.Aligned before s)
    (h : Relation.ReflTransGen p.Leads s s') : p.Aligned before s' := by
  induction h with
  | refl => exact ha
  | tail _ hstep ih => exact ih.step hstep

end Plan

/-! ### Trails -/

/-- The trails that begin with an item: the item alone, if it leads to a node that is not visited,
and then the item with what goes on from that node. -/
def trailsAlong (target? : ε → Option ν) (visited : List ν) (more : ν → List (List ε)) (item : ε) :
    List (List ε) :=
  match target? item with
  | none => []
  | some node => if node ∈ visited then [] else [item] :: (more node).map (item :: ·)

/-- **The trails from a node**: at least one and at most so many items, each leading to a node that
is not visited. A trail comes before its extensions. -/
def trails (target? : ε → Option ν) (next : ν → List ε) : Nat → List ν → ν → List (List ε)
  | 0, _, _ => []
  | depth + 1, visited, node =>
    (next node).flatMap (trailsAlong target? visited fun other =>
      trails target? next depth (other :: visited) other)

section Trails

variable {target? : ε → Option ν} {next : ν → List ε} {depth : Nat} {visited : List ν} {node : ν}
  {trail : List ε}

theorem mem_trailsAlong_iff {more : ν → List (List ε)} {item : ε} :
    trail ∈ trailsAlong target? visited more item ↔
      ∃ node, target? item = some node ∧ node ∉ visited ∧
        ∃ rest, trail = item :: rest ∧ (rest = [] ∨ rest ∈ more node) := by
  rw [trailsAlong]
  rcases target? item with _ | node
  · simp
  · by_cases hvisited : node ∈ visited
    · simp [hvisited]
    · simp only [if_neg hvisited, List.mem_cons, List.mem_map, Option.some.injEq]
      constructor
      · rintro (rfl | ⟨rest, hrest, rfl⟩)
        · exact ⟨node, rfl, hvisited, [], rfl, Or.inl rfl⟩
        · exact ⟨node, rfl, hvisited, rest, rfl, Or.inr hrest⟩
      · rintro ⟨_, rfl, -, rest, rfl, rfl | hrest⟩
        · exact Or.inl rfl
        · exact Or.inr ⟨rest, hrest, rfl⟩

/-- A trail begins with an item at the node, which leads to a new node, and ends there or goes
on. -/
theorem mem_trails_succ_iff : trail ∈ trails target? next (depth + 1) visited node ↔
    ∃ item ∈ next node, ∃ other, target? item = some other ∧ other ∉ visited ∧
      ∃ rest, trail = item :: rest ∧
        (rest = [] ∨ rest ∈ trails target? next depth (other :: visited) other) := by
  rw [trails, List.mem_flatMap]
  simp only [mem_trailsAlong_iff]

theorem ne_nil_of_mem_trails (h : trail ∈ trails target? next depth visited node) :
    trail ≠ [] := by
  cases depth with
  | zero => cases h
  | succ depth =>
    obtain ⟨item, -, -, -, -, rest, rfl, -⟩ := mem_trails_succ_iff.1 h
    exact List.cons_ne_nil item rest

/-- **Trails come in lexicographic order** when the items at each node ascend. -/
theorem pairwise_trails [LT ε] (hnext : ∀ node, (next node).Pairwise (· < ·)) :
    (trails target? next depth visited node).Pairwise (· < ·) := by
  induction depth generalizing visited node with
  | zero => exact List.Pairwise.nil
  | succ depth ih =>
    rw [trails, List.pairwise_flatMap]
    constructor
    · intro item _
      rw [trailsAlong]
      split
      · exact List.Pairwise.nil
      · split
        · exact List.Pairwise.nil
        · refine List.pairwise_cons.2 ⟨fun trail htrail => ?_, List.pairwise_map.2 ?_⟩
          · -- a trail comes before its extensions
            obtain ⟨rest, hrest, rfl⟩ := List.mem_map.1 htrail
            obtain ⟨first, more, rfl⟩ := List.exists_cons_of_ne_nil (ne_nil_of_mem_trails hrest)
            exact List.cons_lt_cons_iff.2 (Or.inr ⟨rfl, List.nil_lt_cons first more⟩)
          · exact ih.imp fun hlt => List.cons_lt_cons_iff.2 (Or.inr ⟨rfl, hlt⟩)
    · refine (hnext node).imp fun hlt trail htrail trail' htrail' => ?_
      obtain ⟨-, -, -, rest, rfl, -⟩ := mem_trailsAlong_iff.1 htrail
      obtain ⟨-, -, -, rest', rfl, -⟩ := mem_trailsAlong_iff.1 htrail'
      exact List.cons_lt_cons_iff.2 (Or.inl hlt)

/-- **A search that always goes on looks at every trail.** -/
theorem Plan.yields_eq_trails {p : Plan ν ε β} (hgoes : ∀ node, p.goesOn node = true) (depth : Nat)
    (visited : List ν) (path : List ε) (node : ν) :
    p.yields depth visited path (p.next node) =
      (trails p.target? p.next depth visited node).filterMap fun trail =>
        p.emit (trail.reverse ++ path) := by
  induction depth generalizing visited path node with
  | zero => rfl
  | succ depth ih =>
    rw [yields, trails, List.filterMap_flatMap]
    refine List.flatMap_congr fun item _ => ?_
    rw [trailsAlong]
    rcases p.target? item with _ | other
    · rfl
    · simp only [hgoes, if_true]
      split
      · rfl
      · rw [ih, List.filterMap_cons, List.filterMap_map]
        have hsame : (fun trail : List ε => p.emit (trail.reverse ++ item :: path)) =
            (fun trail => p.emit (trail.reverse ++ path)) ∘ (item :: ·) := by
          funext trail
          simp
        rw [hsame, List.reverse_singleton, List.singleton_append]
        rcases p.emit (item :: path) with _ | b <;> rfl

end Trails

/-- The ways on are the trails whose items are the nodes themselves. -/
theorem walks_eq_trails (next : ν → List ν) (hops : Nat) (visited : List ν) (node : ν) :
    Path.walks next hops visited node = trails some next hops visited node := by
  induction hops generalizing visited node with
  | zero => rfl
  | succ hops ih =>
    rw [Path.walks, trails]
    refine List.flatMap_congr fun v _ => ?_
    rw [trailsAlong, ih]

end DepthFirst

/-- **Simple paths come in lexicographic order** when the nodes that come next ascend. -/
theorem Path.pairwise_simplePaths {α : Type} [DecidableEq α] [LT α] {next : α → List α}
    (hnext : ∀ v, (next v).Pairwise (· < ·)) (source target : α) (hops : Nat) :
    (simplePaths next source target hops).Pairwise (· < ·) := by
  rw [simplePaths]
  split
  · exact List.Pairwise.nil
  · rw [ways_eq_filter_walks, DepthFirst.walks_eq_trails, List.pairwise_map]
    refine (DepthFirst.pairwise_trails hnext).filter _ |>.imp ?_
    exact fun hlt => List.cons_lt_cons_iff.2 (Or.inr ⟨rfl, hlt⟩)

end GraphReasoner
