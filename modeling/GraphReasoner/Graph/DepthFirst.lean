/-!
# Depth-first search with a stack

A depth-first search keeps three things: the path it is on, the nodes of that path, and for each
step of the path the items that are still to be tried beside it. It takes one item at a time. An
item that leads to a visited node is passed over. Otherwise the path with the item may yield
something, and if the search goes on from there the item is put on the path. When nothing is left to
be tried, the newest item is taken off again.

What the items are, where they lead, what a path yields and how far the search goes is told by a
plan (`GraphReasoner.DepthFirst.Plan`). The search itself is the repetition of
`GraphReasoner.DepthFirst.Plan.step`, which does one of four things
(`GraphReasoner.DepthFirst.Plan.Move`). It comes to an end, whatever the state it starts in, because
each step takes away from the work that is left (`GraphReasoner.DepthFirst.Plan.size_step`).
-/

namespace GraphReasoner

/-- Takes steps as long as there is one to take. Each step makes something smaller. -/
def exhaust {σ : Type} (step : σ → Option σ) (size : σ → Nat)
    (smaller : ∀ s s', step s = some s' → size s' < size s) (s : σ) : σ :=
  match _h : step s with
  | none => s
  | some s' => exhaust step size smaller s'
termination_by size s
decreasing_by exact smaller s s' ‹_›

namespace DepthFirst

/-- What a search keeps. -/
structure State (ν ε β : Type) where
  /-- The items of the path, newest first. -/
  path : List ε
  /-- The nodes of the path. -/
  visited : List ν
  /-- The items still to be tried, those beside the newest item of the path first. -/
  pending : List (List ε)
  /-- What the paths so far have yielded, oldest first. -/
  found : List β

/-- How to search. -/
structure Plan (ν ε β : Type) where
  /-- The node that an item leads to. -/
  target? : ε → Option ν
  /-- The items to be tried at a node. -/
  next : ν → List ε
  /-- Whether the search goes on from a node. -/
  goesOn : ν → Bool
  /-- What a path yields, newest item first. -/
  emit : List ε → Option β
  /-- The search goes on from an item only when the path before it is shorter than this. -/
  room : Nat

namespace Plan

variable {ν ε β : Type} [DecidableEq ν] (p : Plan ν ε β)

/-- The visited nodes when the newest item of the path is taken off. -/
def unmark (path : List ε) (visited : List ν) : List ν :=
  match path.head?.bind p.target? with
  | some node => visited.erase node
  | none => visited

/-- Takes one item, or goes back when there is none. -/
def step (s : State ν ε β) : Option (State ν ε β) :=
  match s.pending with
  | [] => none
  | [] :: rest =>
    some { s with path := s.path.tail, visited := p.unmark s.path s.visited, pending := rest }
  | (item :: untried) :: rest =>
    match p.target? item with
    | none => some { s with pending := untried :: rest }
    | some node =>
      if node ∈ s.visited then some { s with pending := untried :: rest }
      else
        let found := s.found ++ (p.emit (item :: s.path)).toList
        if p.goesOn node ∧ s.path.length < p.room then
          some ⟨item :: s.path, node :: s.visited, p.next node :: untried :: rest, found⟩
        else some { s with pending := untried :: rest, found }

/-- **What one step does** to a state: it goes back, passes over an item, puts an item on the path,
or looks at an item without going on from it. -/
inductive Move : State ν ε β → State ν ε β → Prop
  | back (path : List ε) (visited : List ν) (rest : List (List ε)) (found : List β) :
    Move ⟨path, visited, [] :: rest, found⟩ ⟨path.tail, p.unmark path visited, rest, found⟩
  | skip (path : List ε) {visited : List ν} {item : ε} (untried : List ε) (rest : List (List ε))
    (found : List β) (hold : ∀ node, p.target? item = some node → node ∈ visited) :
    Move ⟨path, visited, (item :: untried) :: rest, found⟩ ⟨path, visited, untried :: rest, found⟩
  | descend {path : List ε} {visited : List ν} {item : ε} {node : ν} (untried : List ε)
    (rest : List (List ε)) (found : List β) (hnode : p.target? item = some node)
    (hnew : node ∉ visited) (hgoes : p.goesOn node = true) (hroom : path.length < p.room) :
    Move ⟨path, visited, (item :: untried) :: rest, found⟩
      ⟨item :: path, node :: visited, p.next node :: untried :: rest,
        found ++ (p.emit (item :: path)).toList⟩
  | stay {path : List ε} {visited : List ν} {item : ε} {node : ν} (untried : List ε)
    (rest : List (List ε)) (found : List β) (hnode : p.target? item = some node)
    (hnew : node ∉ visited) (hstop : ¬(p.goesOn node = true ∧ path.length < p.room)) :
    Move ⟨path, visited, (item :: untried) :: rest, found⟩
      ⟨path, visited, untried :: rest, found ++ (p.emit (item :: path)).toList⟩

theorem move_of_step {s s' : State ν ε β} (h : p.step s = some s') : p.Move s s' := by
  obtain ⟨path, visited, pending, found⟩ := s
  unfold step at h
  rcases pending with _ | ⟨_ | ⟨item, untried⟩, rest⟩
  · cases h
  · obtain rfl := Option.some.inj h
    exact .back path visited rest found
  · simp only at h
    rcases hnode : p.target? item with _ | node
    · rw [hnode] at h
      obtain rfl := Option.some.inj h
      exact .skip path untried rest found fun node hsome => nomatch hnode.symm.trans hsome
    · rw [hnode] at h
      simp only at h
      split at h
      · rename_i hold
        obtain rfl := Option.some.inj h
        refine .skip path untried rest found fun node' hsome => ?_
        obtain rfl := Option.some.inj (hnode.symm.trans hsome)
        exact hold
      · rename_i hnew
        split at h
        · rename_i hroom
          obtain rfl := Option.some.inj h
          exact .descend untried rest found hnode hnew hroom.1 hroom.2
        · rename_i hstop
          obtain rfl := Option.some.inj h
          exact .stay untried rest found hnode hnew hstop

/-! ### The work that is left -/

/-- The work of some items. -/
def total (work : ε → Nat) (items : List ε) : Nat :=
  items.foldr (fun item rest => work item + rest) 0

/-- The work of an item, when the path can get so many items longer behind it. -/
def work : Nat → ε → Nat
  | 0, _ => 1
  | depth + 1, item =>
    match p.target? item with
    | none => 1
    | some node => total (work depth) (p.next node) + 2

/-- The work of what is to be tried, when the path has so many items. -/
def load : Nat → List (List ε) → Nat
  | _, [] => 0
  | length, untried :: rest =>
    total (p.work (p.room - length)) untried + 1 + load (length - 1) rest

/-- The work that is left. -/
def size (s : State ν ε β) : Nat :=
  p.load s.path.length s.pending

theorem total_cons (work : ε → Nat) (item : ε) (items : List ε) :
    total work (item :: items) = work item + total work items :=
  rfl

omit [DecidableEq ν] in
theorem work_pos (depth : Nat) (item : ε) : 0 < p.work depth item := by
  cases depth with
  | zero => exact Nat.one_pos
  | succ depth =>
    rw [work]
    split <;> omega

/-- **Each step takes away from the work that is left.** -/
theorem size_step (s s' : State ν ε β) (h : p.step s = some s') : p.size s' < p.size s := by
  cases p.move_of_step h with
  | back path visited rest found =>
    simp only [size, load, List.length_tail]
    omega
  | @skip path visited item untried rest found _ =>
    have hpos := p.work_pos (p.room - path.length) item
    simp only [size, load, total_cons]
    omega
  | @descend path visited item node untried rest found hnode _ _ hroom =>
    -- the work at the new node was counted with the item
    have hdepth : p.room - path.length = p.room - (path.length + 1) + 1 := by omega
    have hwork : p.work (p.room - path.length) item =
        total (p.work (p.room - (path.length + 1))) (p.next node) + 2 := by
      rw [hdepth, work, hnode]
    simp only [size, load, total_cons, List.length_cons, Nat.add_sub_cancel, hwork]
    omega
  | @stay path visited item node untried rest found _ _ _ =>
    have hpos := p.work_pos (p.room - path.length) item
    simp only [size, load, total_cons]
    omega

/-- Searches until nothing is left to be tried. -/
def run (s : State ν ε β) : State ν ε β :=
  exhaust p.step p.size p.size_step s

end Plan

end DepthFirst

end GraphReasoner
