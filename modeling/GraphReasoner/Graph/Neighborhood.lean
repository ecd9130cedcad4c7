import GraphReasoner.Graph.Store

/-!
# Neighborhoods

Breadth-first search follows relations in both directions, level by level: each node of a level is
visited in turn, the relations that leave it before those that enter it, newest first, and a node
that is met for the first time belongs to the next level. The search may be restricted to some types
of relations; no types means all of them.

`GraphReasoner.Graph.neighborhood` lists the nodes found, without those it started from, and for
each the relation through which it was found.
-/

namespace GraphReasoner

/-- What a breadth-first search finds. -/
structure Neighborhood (S : Type) where
  /-- The nodes found, in the order of discovery. -/
  discovered : List String
  /-- The relation through which each node was found. -/
  relations : List (Relation S)
  /-- The greatest distance of a node found. -/
  depth : Nat

namespace Graph

variable {S : Type}

/-- The records that touch an entity and have an allowed type, outgoing before incoming. -/
def touching (g : Graph S) (kinds : List String) (id : String) : List (Record S) :=
  (g.leaving id ++ g.entering id).filter fun r => kinds.isEmpty || kinds.contains r.kind

/-- The end of a record that is not the given one. -/
def otherEnd (id : String) (r : Record S) : String :=
  if r.source == id then r.target else r.source

/-- The nodes met for the first time from one node, each with the record that leads to it. -/
def discoverFrom (g : Graph S) (kinds : List String) (visited : List String) (id : String) :
    List (String × Record S) :=
  (g.touching kinds id).foldl (fun found r =>
    let other := otherEnd id r
    if visited.contains other || found.any (fun f => f.1 == other) then found
    else found ++ [(other, r)]) []

/-- The nodes met for the first time from a level, in order. -/
def discoverLevel (g : Graph S) (kinds : List String) (visited level : List String) :
    List (String × Record S) :=
  level.foldl (fun found id =>
    found ++ g.discoverFrom kinds (found.map Prod.fst ++ visited) id) []

/-- The levels after a level, at most `depth` of them, none empty. -/
def levels (g : Graph S) (kinds : List String) : Nat → List String → List String →
    List (List (String × Record S))
  | 0, _, _ => []
  | depth + 1, visited, level =>
    match g.discoverLevel kinds visited level with
    | [] => []
    | found :: more =>
      let ids := (found :: more).map Prod.fst
      (found :: more) :: levels g kinds depth (ids ++ visited) ids

/-- The nodes within a distance of some nodes, through relations of some types in
either direction. -/
def neighborhood (g : Graph S) (seeds : List String) (depth : Nat) (kinds : List String) :
    Neighborhood S :=
  let known := seeds.filter g.hasEntity
  let found := g.levels kinds depth known known
  { discovered := found.flatten.map Prod.fst
    relations := found.flatten.filterMap fun f => g.resolve? f.2
    depth := found.length }

end Graph

end GraphReasoner
