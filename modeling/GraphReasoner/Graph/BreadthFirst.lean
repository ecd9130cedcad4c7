import GraphReasoner.Graph.DepthFirst

/-!
# Breadth-first search with a queue

A breadth-first search keeps a queue of nodes, each with its distance from where the search began.
It takes the first node of the queue and goes through the items there. An item leads to the node at
its other end. If that node is not marked yet it is discovered: it is marked and goes to the end of
the queue, one step further away, and the item that led to it is noted down, unless it was before.
Nothing is discovered from a node that is as far away as the search reaches.

What the items are, which nodes they join and how far the search reaches is told by a plan
(`GraphReasoner.BreadthFirst.Plan`). The search itself is the repetition of
`GraphReasoner.BreadthFirst.Plan.step`. It comes to an end, whatever the state it starts in, because
a node that is taken is more work than the nodes that are discovered from it
(`GraphReasoner.BreadthFirst.Plan.size_step`).
-/

namespace GraphReasoner

namespace BreadthFirst

open DepthFirst.Plan (total total_cons)

/-- What a search keeps. -/
structure State (ν ε : Type) where
  /-- The nodes to be taken, the next one first, each with its distance. -/
  queue : List (ν × Nat)
  /-- The nodes that are marked. -/
  visited : List ν
  /-- The items that led to a discovery, oldest first. -/
  followed : List ε
  /-- The nodes that were discovered, oldest first. -/
  discovered : List ν
  /-- The greatest distance of a node that was discovered. -/
  depth : Nat

/-- How to search. -/
structure Plan (ν ε : Type) where
  /-- The two nodes that an item joins. -/
  ends? : ε → Option (ν × ν)
  /-- The items at a node. -/
  items : ν → List ε
  /-- Nothing is discovered from a node at this distance or further away. -/
  reach : Nat

namespace Plan

variable {ν ε : Type} [DecidableEq ν] [DecidableEq ε] (p : Plan ν ε)

/-- The node at the other end of an item. -/
def other? (node : ν) (item : ε) : Option ν :=
  (p.ends? item).map fun ends => if ends.1 = node then ends.2 else ends.1

/-- Follows an item from a node at some distance. -/
def follow (node : ν) (distance : Nat) (s : State ν ε) (item : ε) : State ν ε :=
  match p.other? node item with
  | none => s
  | some other =>
    if other ∈ s.visited then s
    else
      { queue := s.queue ++ [(other, distance + 1)]
        visited := other :: s.visited
        followed := if item ∈ s.followed then s.followed else s.followed ++ [item]
        discovered := s.discovered ++ [other]
        depth := max s.depth (distance + 1) }

/-- Takes the first node of the queue and follows the items there. -/
def step (s : State ν ε) : Option (State ν ε) :=
  match s.queue with
  | [] => none
  | (node, distance) :: rest =>
    let s := { s with queue := rest }
    if distance < p.reach then some ((p.items node).foldl (p.follow node distance) s) else some s

/-! ### The work that is left -/

/-- The work of a node from which the search can go so many steps further. -/
def work : Nat → ν → Nat
  | 0, _ => 1
  | steps + 1, node =>
    total (fun item => ((p.other? node item).map (work steps)).getD 0) (p.items node) + 1

/-- The work that is left. -/
def size (s : State ν ε) : Nat :=
  total (fun x => p.work (p.reach - x.2) x.1) s.queue

omit [DecidableEq ε] in
theorem work_pos (steps : Nat) (node : ν) : 0 < p.work steps node := by
  cases steps with
  | zero => exact Nat.one_pos
  | succ steps => exact Nat.succ_pos _

theorem total_concat {α : Type} (work : α → Nat) (items : List α) (item : α) :
    total work (items ++ [item]) = total work items + work item := by
  induction items with
  | nil => exact Nat.add_comm ..
  | cons first items ih => rw [List.cons_append, total_cons, total_cons, ih, Nat.add_assoc]

/-- An item adds no more work than that of the node it leads to. -/
theorem size_follow_le (node : ν) (distance : Nat) (s : State ν ε) (item : ε) :
    p.size (p.follow node distance s item) ≤
      p.size s + ((p.other? node item).map (p.work (p.reach - (distance + 1)))).getD 0 := by
  unfold follow
  rcases p.other? node item with _ | other
  · exact Nat.le_add_right _ _
  · dsimp only
    split
    · exact Nat.le_add_right _ _
    · exact Nat.le_of_eq (total_concat ..)

theorem size_foldl_follow_le (node : ν) (distance : Nat) (items : List ε) (s : State ν ε) :
    p.size (items.foldl (p.follow node distance) s) ≤ p.size s + total (fun item =>
      ((p.other? node item).map (p.work (p.reach - (distance + 1)))).getD 0) items := by
  induction items generalizing s with
  | nil => exact Nat.le_add_right _ _
  | cons item items ih =>
    have hfirst := p.size_follow_le node distance s item
    have hrest := ih (p.follow node distance s item)
    rw [List.foldl_cons, total_cons]
    omega

/-- **Each step takes away from the work that is left.** -/
theorem size_step (s s' : State ν ε) (h : p.step s = some s') : p.size s' < p.size s := by
  unfold step at h
  rcases hqueue : s.queue with _ | ⟨⟨node, distance⟩, rest⟩
  · rw [hqueue] at h
    cases h
  · rw [hqueue] at h
    have hsize : p.size s = p.work (p.reach - distance) node + p.size { s with queue := rest } := by
      rw [size, hqueue, total_cons]
      rfl
    dsimp only at h
    split at h
    · rename_i hreach
      obtain rfl := Option.some.inj h
      have hsteps : p.reach - distance = p.reach - (distance + 1) + 1 := by omega
      have hle := p.size_foldl_follow_le node distance (p.items node) { s with queue := rest }
      rw [hsize, hsteps, work]
      omega
    · obtain rfl := Option.some.inj h
      have hpos := p.work_pos (p.reach - distance) node
      omega

/-- Searches until no node is left to be taken. -/
def run (s : State ν ε) : State ν ε :=
  exhaust p.step p.size p.size_step s

end Plan

end BreadthFirst

end GraphReasoner
