import GraphReasoner.Engine.Basic

/-!
# What an engine holds, in numbers

The summary of an engine counts its graph, its rules and its cache. It is shown as a text of aligned
lines or as a document.
-/

namespace GraphReasoner

/-- The numbers of an engine. -/
structure EngineSummary (S : Type) where
  nodes : Nat
  edges : Nat
  kinds : List String
  density : S
  rules : Nat
  activeRules : Nat
  /-- The number of entries of the cache. -/
  kept : Nat

variable {S M : Type}

/-- The numbers of an engine. -/
def Engine.summary [Scalar S] (e : Engine S M) : EngineSummary S :=
  { nodes := e.graph.nodeCount
    edges := e.graph.edgeCount
    kinds := e.graph.kinds
    density := e.graph.density
    rules := e.rules.rules.length
    activeRules := e.rules.active.length
    kept := e.cache.index.length }

namespace EngineSummary

/-- The lines of the text. -/
def lines [Numeral S] (s : EngineSummary S) : List String :=
  ["kg-reason engine info",
    s!"  nodes:          {s.nodes}",
    s!"  edges:          {s.edges}",
    "  density:        " ++ Numeral.fixed 4 s.density,
    "  relation types: " ++ Text.join ", " s.kinds,
    s!"  rules:          {s.rules} ({s.activeRules} active)",
    s!"  cached items:   {s.kept}"]

/-- The summary as a document. -/
def toJson (s : EngineSummary S) : Json S :=
  .object [("node_count", .int s.nodes), ("edge_count", .int s.edges),
    ("relation_types", .texts s.kinds), ("density", .float s.density), ("rule_count", .int s.rules),
    ("active_rules", .int s.activeRules), ("cached_items", .int s.kept)]

end EngineSummary

end GraphReasoner
