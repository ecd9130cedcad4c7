import GraphReasoner.Graph.Path

/-!
# Layers

A layer holds at most one payload for each ordered pair of identifiers, the one inserted last. Its
identifiers are kept in the order of their first appearance, and paths through a layer are
enumerated in that order, as paths through a graph are (`GraphReasoner.Path.simplePaths`). A path
yields the payloads of its steps.
-/

namespace GraphReasoner

/-- A payload for each of some ordered pairs of identifiers. -/
structure Layer (P : Type) where
  /-- The identifiers, in the order of their first appearance. -/
  nodes : List String
  /-- The payloads, in the order of their pairs' first appearance. -/
  links : List ((String × String) × P)
deriving Inhabited

namespace Layer

variable {P : Type}

/-- The layer without pairs. -/
def empty : Layer P := ⟨[], []⟩

/-- The payload of a pair. -/
def payload? (layer : Layer P) (source target : String) : Option P :=
  (layer.links.find? fun link => link.1 == (source, target)).map Prod.snd

/-- Adds an identifier at the end, unless it is there. -/
def addNode (nodes : List String) (id : String) : List String :=
  if nodes.contains id then nodes else nodes ++ [id]

/-- Puts a payload in the place of the one of its pair, or at the end. -/
def putLink (links : List ((String × String) × P)) (pair : String × String) (payload : P) :
    List ((String × String) × P) :=
  match links with
  | [] => [(pair, payload)]
  | link :: rest =>
    if link.1 == pair then (pair, payload) :: rest else link :: putLink rest pair payload

/-- Gives a pair a payload. The answer is the payload it replaces. -/
def insert (layer : Layer P) (source target : String) (payload : P) : Option P × Layer P :=
  (layer.payload? source target,
    { nodes := addNode (addNode layer.nodes source) target
      links := putLink layer.links (source, target) payload })

/-- The identifiers that a pair leads to, in the order of the layer. -/
def next (layer : Layer P) (id : String) : List String :=
  let targets := (layer.links.filter fun link => link.1.1 == id).map fun link => link.1.2
  layer.nodes.filter fun other => targets.contains other

/-- The payloads along each simple path of at most `hops` steps. -/
def paths (layer : Layer P) (source target : String) (hops : Nat) : List (List P) :=
  if layer.nodes.contains source && layer.nodes.contains target then
    (Path.simplePaths layer.next source target hops).filterMap fun path =>
      (Path.pairs path).mapM fun (u, v) => layer.payload? u v
  else []

/-- The number of pairs. -/
def size (layer : Layer P) : Nat :=
  layer.links.length

end Layer

end GraphReasoner
