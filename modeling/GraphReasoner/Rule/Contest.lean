import GraphReasoner.Rule.Conflict

/-!
# A contest for every triple

`GraphReasoner.resolveConflicts` compares every relation with all that are kept. Here the triples are
listed in the order in which they come up, and a table beside the list has the relation that leads
for each triple. A relation with a new triple is entered in both, one that beats the leader of its
triple only in the table, and one that does not in neither. In the end the leaders are taken out of
the table, one after another in the order of the list.

* `GraphReasoner.Contest.enter` – one relation;
* `GraphReasoner.Contest.resolve` – the leaders after all relations of a list.
-/

namespace GraphReasoner

/-- The triples that came up and the relations that lead for them. -/
structure Contest (S : Type) where
  /-- The triples, in the order in which they came up. -/
  order : List (String × String × String)
  /-- The relation that leads for each triple. The order of this table is of no account. -/
  leaders : List ((String × String × String) × Relation S)

namespace Contest

variable {S : Type}

/-- The contest before any relation. -/
def empty : Contest S := ⟨[], []⟩

/-- A table without its entry for a triple. -/
def without (leaders : List ((String × String × String) × Relation S))
    (triple : String × String × String) : List ((String × String × String) × Relation S) :=
  leaders.filter fun entry => entry.1 != triple

/-- A table in which a relation leads for its triple. -/
def crown (leaders : List ((String × String × String) × Relation S)) (r : Relation S) :
    List ((String × String × String) × Relation S) :=
  (r.triple, r) :: without leaders r.triple

/-- Enters a relation, which leads if its triple is new or the leader is less confident. -/
def enter [Scalar S] (c : Contest S) (r : Relation S) : Contest S :=
  match c.leaders.lookup r.triple with
  | some leader =>
    if leader.confidence < r.confidence then { c with leaders := crown c.leaders r } else c
  | none => { order := c.order ++ [r.triple], leaders := crown c.leaders r }

/-- Takes the leaders of some triples out of a table, in the order of the triples. A triple without
a leader is passed over. -/
def drain (leaders : List ((String × String × String) × Relation S)) :
    List (String × String × String) → List (Relation S)
  | [] => []
  | triple :: order =>
    match leaders.lookup triple with
    | some r => r :: drain (without leaders triple) order
    | none => drain leaders order

/-- The list without conflicts. -/
def resolve [Scalar S] (relations : List (Relation S)) : List (Relation S) :=
  let c := relations.foldl enter empty
  drain c.leaders c.order

end Contest

end GraphReasoner
