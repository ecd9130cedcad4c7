import GraphReasoner.Graph.Relation

/-!
# Conflicting relations

Relations with one triple of source, target and type are in conflict. Of them the one with the
greatest confidence stays, the earliest if several have it, in the place where the triple occurred
first.
-/

namespace GraphReasoner

variable {S : Type} [Scalar S]

/-- Adds a relation to a list without conflicts, where a more confident one takes the place of the
one it is in conflict with. -/
def settle (kept : List (Relation S)) (r : Relation S) : List (Relation S) :=
  match kept with
  | [] => [r]
  | old :: rest =>
    if old.triple == r.triple then (if old.confidence < r.confidence then r else old) :: rest
    else old :: settle rest r

/-- The list without conflicts. -/
def resolveConflicts (relations : List (Relation S)) : List (Relation S) :=
  relations.foldl settle []

end GraphReasoner
