import GraphReasoner.Graph.BreadthFirst
import GraphReasoner.Proofs.Graph.DepthFirst

/-!
# What a breadth-first search keeps

A breadth-first search comes to an end (`GraphReasoner.BreadthFirst.Plan.reaches_run`). On the way
its queue never holds nodes of more than two distances, which differ by one, and those of the lesser
distance come first (`GraphReasoner.BreadthFirst.State.InLevels`): what is discovered from a node is
one step further away than the node, and goes to the end. So the nodes are taken in the order of
their distances.

Following an item changes the state when the item leads to a node that is not marked, and then in
one way (`GraphReasoner.BreadthFirst.Plan.follow_of_notMem`).
-/

namespace GraphReasoner

namespace BreadthFirst

variable {ν ε : Type} [DecidableEq ν] [DecidableEq ε]

namespace Plan

variable (p : Plan ν ε)

/-- One step leads from a state to another. -/
def Leads (s s' : State ν ε) : Prop :=
  p.step s = some s'

/-- **A search comes to an end**, where no node is left to be taken. -/
theorem reaches_run (s : State ν ε) :
    Relation.ReflTransGen p.Leads s (p.run s) ∧ p.step (p.run s) = none :=
  reaches_exhaust p.step p.size p.size_step s

variable {p} {s s' : State ν ε} {node other : ν} {distance : Nat} {item : ε}

/-- A search goes the same way after a step. -/
theorem run_of_leads (h : p.Leads s s') : p.run s = p.run s' := by
  rw [run, exhaust]
  split
  · rename_i hend
    cases hend.symm.trans h
  · rename_i s'' hstep
    obtain rfl := Option.some.inj (hstep.symm.trans h)
    rfl

/-- A search stops when no node is left to be taken. -/
theorem run_of_end (h : p.step s = none) : p.run s = s := by
  rw [run, exhaust]
  split
  · rfl
  · rename_i s' hstep
    cases h.symm.trans hstep

/-! ### Following an item -/

theorem follow_of_mem (hother : p.other? node item = some other) (hold : other ∈ s.visited) :
    p.follow node distance s item = s := by
  rw [follow, hother]
  exact if_pos hold

/-- **A node that is not marked is discovered.** -/
theorem follow_of_notMem (hother : p.other? node item = some other) (hnew : other ∉ s.visited) :
    p.follow node distance s item =
      { queue := s.queue ++ [(other, distance + 1)]
        visited := other :: s.visited
        followed := if item ∈ s.followed then s.followed else s.followed ++ [item]
        discovered := s.discovered ++ [other]
        depth := max s.depth (distance + 1) } := by
  rw [follow, hother]
  exact if_neg hnew

/-! ### Taking a node -/

theorem step_of_lt {rest : List (ν × Nat)} (hqueue : s.queue = (node, distance) :: rest)
    (hreach : distance < p.reach) : p.step s =
      some ((p.items node).foldl (p.follow node distance) { s with queue := rest }) := by
  rw [step, hqueue]
  exact if_pos hreach

theorem step_of_le {rest : List (ν × Nat)} (hqueue : s.queue = (node, distance) :: rest)
    (hreach : p.reach ≤ distance) : p.step s = some { s with queue := rest } := by
  rw [step, hqueue]
  exact if_neg (Nat.not_lt_of_le hreach)

theorem step_of_nil (hqueue : s.queue = []) : p.step s = none := by
  rw [step, hqueue]

/-- **Nodes at which the search does not go on** are taken without effect. -/
theorem run_of_le (hreach : p.reach ≤ distance) (level : List ν) (s : State ν ε) :
    p.run { s with queue := level.map fun node => (node, distance) } = { s with queue := [] } := by
  induction level with
  | nil => exact run_of_end (step_of_nil rfl)
  | cons node level ih =>
    have hstep : p.Leads { s with queue := (node :: level).map fun node => (node, distance) }
        { s with queue := level.map fun node => (node, distance) } := step_of_le rfl hreach
    rw [run_of_leads hstep, ih]

/-! ### Discoveries -/

end Plan

/-- **Nodes are discovered** at a distance, each through an item that was not followed before: they
are marked and go to the end of the queue. -/
def State.add (s : State ν ε) (distance : Nat) (found : List (ν × ε)) : State ν ε where
  queue := s.queue ++ found.map fun f => (f.1, distance)
  visited := (found.map Prod.fst).reverse ++ s.visited
  followed := s.followed ++ found.map Prod.snd
  discovered := s.discovered ++ found.map Prod.fst
  depth := if found = [] then s.depth else max s.depth distance

omit [DecidableEq ν] [DecidableEq ε] in
theorem State.add_nil (s : State ν ε) (distance : Nat) : s.add distance [] = s := by
  simp [add]

omit [DecidableEq ν] [DecidableEq ε] in
theorem State.mem_visited_add {s : State ν ε} {distance : Nat} {found : List (ν × ε)} {node : ν} :
    node ∈ (s.add distance found).visited ↔ node ∈ found.map Prod.fst ∨ node ∈ s.visited := by
  rw [add, List.mem_append, List.mem_reverse]

omit [DecidableEq ν] [DecidableEq ε] in
theorem State.add_add (s : State ν ε) (distance : Nat) (found more : List (ν × ε)) :
    (s.add distance found).add distance more = s.add distance (found ++ more) := by
  have hdepth : ((s.add distance found).add distance more).depth =
      (s.add distance (found ++ more)).depth := by
    simp only [add, List.append_eq_nil_iff]
    by_cases hfound : found = [] <;> by_cases hmore : more = [] <;> simp [hfound, hmore]
  cases hadd : s.add distance (found ++ more) with
  | mk queue visited followed discovered depth =>
    rw [hadd] at hdepth
    simp only [add, State.mk.injEq] at hadd hdepth ⊢
    obtain ⟨rfl, rfl, rfl, rfl, -⟩ := hadd
    simpa using hdepth

namespace Plan

variable {p : Plan ν ε} {s s' : State ν ε} {node other : ν} {distance : Nat} {item : ε}

/-- **The items that were followed join marked nodes.** So no item that leads to a new node was
followed before. -/
def Marked (p : Plan ν ε) (s : State ν ε) : Prop :=
  ∀ item ∈ s.followed, ∀ ends, p.ends? item = some ends →
    ends.1 ∈ s.visited ∧ ends.2 ∈ s.visited

/-- **A new node is discovered** through an item that was not followed before. -/
theorem Marked.follow_eq (hs : p.Marked s) (distance : Nat) {ends : ν × ν}
    (hends : p.ends? item = some ends) (hnode : node ∈ s.visited)
    (hat : ends.1 = node ∨ ends.2 = node) (hother : p.other? node item = some other)
    (hnew : other ∉ s.visited) :
    p.follow node distance s item = s.add (distance + 1) [(other, item)] ∧
      p.Marked (s.add (distance + 1) [(other, item)]) := by
  obtain ⟨source, target⟩ := ends
  -- the new node is one end of the item, and the node itself the other one
  have hboth : source = other ∧ target = node ∨ source = node ∧ target = other := by
    rw [other?, hends, Option.map_some, Option.some.injEq] at hother
    dsimp only at hother hat
    split at hother
    · exact Or.inr ⟨‹source = node›, hother⟩
    · exact Or.inl ⟨hother, hat.resolve_left ‹¬source = node›⟩
  have hfirst : item ∉ s.followed := fun hold => by
    obtain ⟨hs, ht⟩ := hs item hold _ hends
    rcases hboth with ⟨rfl, -⟩ | ⟨-, rfl⟩
    · exact hnew hs
    · exact hnew ht
  refine ⟨?_, fun item' hitem ends' hends' => ?_⟩
  · rw [follow_of_notMem hother hnew, if_neg hfirst]
    rfl
  · rcases List.mem_append.1 hitem with hold | hlast
    · exact ⟨List.mem_cons_of_mem _ (hs item' hold _ hends').1,
        List.mem_cons_of_mem _ (hs item' hold _ hends').2⟩
    · obtain rfl := List.mem_singleton.1 hlast
      obtain rfl := Option.some.inj (hends.symm.trans hends')
      rcases hboth with ⟨rfl, rfl⟩ | ⟨rfl, rfl⟩
      · exact ⟨List.mem_cons_self, List.mem_cons_of_mem _ hnode⟩
      · exact ⟨List.mem_cons_of_mem _ hnode, List.mem_cons_self⟩

/-! ### The distances in the queue -/

/-- Following items puts nodes that are one step further away at the end of the queue. -/
theorem exists_queue_foldl_follow (p : Plan ν ε) (node : ν) (distance : Nat) (items : List ε)
    (s : State ν ε) :
    ∃ more : List ν, (items.foldl (p.follow node distance) s).queue =
      s.queue ++ more.map fun other => (other, distance + 1) := by
  induction items generalizing s with
  | nil => exact ⟨[], by simp⟩
  | cons item items ih =>
    obtain ⟨more, hmore⟩ := ih (p.follow node distance s item)
    rw [List.foldl_cons, hmore]
    rcases hother : p.other? node item with _ | other
    · exact ⟨more, by rw [follow, hother]⟩
    · by_cases hold : other ∈ s.visited
      · exact ⟨more, by rw [follow_of_mem hother hold]⟩
      · exact ⟨other :: more, by simp [follow_of_notMem hother hold]⟩

end Plan

/-- **The queue holds nodes of two distances that differ by one**, those of the lesser distance
first. -/
def State.InLevels (s : State ν ε) : Prop :=
  ∃ (distance : Nat) (level next : List ν), s.queue =
    level.map (fun node => (node, distance)) ++ next.map fun node => (node, distance + 1)

namespace State.InLevels

variable {p : Plan ν ε} {s s' : State ν ε}

/-- **Taking a node** keeps to two distances. -/
theorem step (hs : s.InLevels) (h : p.Leads s s') : s'.InLevels := by
  -- the first node can be taken to be of the lesser distance
  obtain ⟨distance, node, level, next, hqueue⟩ : ∃ (distance : Nat) (node : ν)
      (level next : List ν), s.queue = (node, distance) ::
        (level.map (fun node => (node, distance)) ++
          next.map fun node => (node, distance + 1)) := by
    obtain ⟨distance, _ | ⟨node, level⟩, next, hqueue⟩ := hs
    · rcases next with _ | ⟨node, next⟩
      · rw [Plan.Leads, Plan.step_of_nil (by simpa using hqueue)] at h
        cases h
      · exact ⟨distance + 1, node, next, [], by simpa using hqueue⟩
    · exact ⟨distance, node, level, next, by simpa using hqueue⟩
  by_cases hreach : distance < p.reach
  · obtain rfl := Option.some.inj ((Plan.step_of_lt hqueue hreach).symm.trans h)
    obtain ⟨more, hmore⟩ := p.exists_queue_foldl_follow node distance (p.items node) { s with
        queue := level.map (fun node => (node, distance)) ++
          next.map fun node => (node, distance + 1) }
    exact ⟨distance, level, next ++ more, by simpa using hmore⟩
  · obtain rfl := Option.some.inj
      ((Plan.step_of_le hqueue (Nat.le_of_not_lt hreach)).symm.trans h)
    exact ⟨distance, level, next, rfl⟩

/-- **A search keeps to two distances.** -/
theorem reaches (hs : s.InLevels) (h : Relation.ReflTransGen p.Leads s s') : s'.InLevels := by
  induction h with
  | refl => exact hs
  | tail _ hstep ih => exact ih.step hstep

end State.InLevels

end BreadthFirst

end GraphReasoner
