import GraphReasoner.Cache.Payload
import GraphReasoner.Chain.Reasoner
import GraphReasoner.Query.Planner
import GraphReasoner.Query.Search
import GraphReasoner.Rule.Conflict
import GraphReasoner.Rule.Derivation
import GraphReasoner.Settings

/-!
# The engine

An engine is one graph with everything that reasons over it: a rule set, the layers of chains, a
planner with its history, and a cache of answers. Only `GraphReasoner.Engine.materialize` changes
the graph, and it empties the cache whenever it adds something, because the answers there were found
on the smaller graph.

| operation | what it is |
|---|---|
| `GraphReasoner.Engine.infer` | what the active rules derive, without conflicts |
| `GraphReasoner.Engine.inferChains` | chains between two entities |
| `GraphReasoner.Engine.materialize` | relations become part of the graph |
| `GraphReasoner.Engine.query` | the answer to a question, from the cache or from the graph |
| `GraphReasoner.Engine.plan` | how a question would be answered |
| `GraphReasoner.Engine.suggest` | other questions worth asking |
-/

namespace GraphReasoner

open GraphReasoner.Query (Answer Plan Planner Suggestion)
open GraphReasoner.Time (Instant Duration)

/-- A graph and what reasons over it. -/
structure Engine (S M : Type) where
  settings : Settings S
  graph : Graph S
  /-- The answers that are kept. -/
  cache : Cache M
  rules : RuleSet S
  chains : ChainReasoner S
  planner : Planner S

namespace Engine

variable {S M : Type}

/-- The kind of data that answers are in the cache. -/
def answerKind : String := "query"

section Graph

variable [Scalar S]

/-- An engine over a graph, a cache and rules. The layers are filled from the relations of the
graph. -/
def make (settings : Settings S) (graph : Graph S) (cache : Cache M) (rules : RuleSet S) :
    Result S (Engine S M) := do
  let chains ← ChainReasoner.ofRelations settings.inference graph.relations
  return { settings, graph, cache, rules, chains, planner := .empty settings.planner }

/-- What the active rules derive, of conflicting relations the most confident. -/
def infer (e : Engine S M) : Derivation S :=
  let d := e.rules.inferGraph e.graph
  { d with derived := resolveConflicts d.derived }

/-- The entity with an identifier, which has to be in the graph. -/
def lookup (e : Engine S M) (id : String) : Result S (Entity S) :=
  match e.graph.entity? id with
  | some entity => .ok entity
  | none => .error (.unknownEntity id)

/-- The chains between two entities of the graph. There is neither a report nor an error when the
search for walks stops the program. -/
def inferChains (e : Engine S M) (source target kind : String) :
    Result S (Option (ChainReport S)) := do
  let source ← e.lookup source
  let target ← e.lookup target
  return e.chains.inferAll e.graph source target kind

/-- Adds the relations whose triples are not in the graph, up to the first that is refused, and
counts them. The graph keeps what was added before a refusal. -/
def addMissing (g : Graph S) (added : Nat) : List (Relation S) → Result S Nat × Graph S
  | [] => (.ok added, g)
  | r :: relations =>
    match g.relation? r.source.id r.target.id r.kind with
    | some _ => addMissing g added relations
    | none =>
      match g.addRelation r with
      | .ok g => addMissing g (added + 1) relations
      | .error error => (.error error, g)

/-- Makes relations a part of the graph. When all went well and something was added, the cache is
emptied. -/
def materialize [Medium M] (e : Engine S M) (relations : List (Relation S)) :
    Result S Nat × Engine S M :=
  match addMissing e.graph 0 relations with
  | (.ok added, graph) =>
    (.ok added, { e with graph, cache := if 0 < added then e.cache.clear else e.cache })
  | (.error error, graph) => (.error error, { e with graph })

end Graph

section Query

variable [Numeral S] [Medium M]

/-- The answer to a text that is found on the graph. -/
def execute (e : Engine S M) (text : String) (now : Instant) : Answer S :=
  e.graph.answer e.settings.query (Query.parse text e.graph) now

/-- The answer to a text that is in the cache. -/
def fetch (e : Engine S M) (text : String) (now : Instant) : Option (Answer S) × Engine S M :=
  let (found, cache) := e.cache.getJson (Query.answerKey text) Answer.ofJson? now
  (found, { e with cache })

/-- Puts an answer into the cache. -/
def keep (e : Engine S M) (text : String) (a : Answer S) (now : Instant) : Engine S M :=
  let lifetime := e.settings.query.answerLifetime.map Duration.ofSeconds
  { e with cache := (e.cache.storeJson (Query.answerKey text) a.toJson lifetime answerKind now).2 }

/-- Answers a question. With the cache, an answer that is kept there is given as it is, and an
answer that is not is kept. -/
def query (e : Engine S M) (text : String) (useCache : Bool) (now : Instant) :
    Result S (Answer S) × Engine S M :=
  if Text.AllBlank text then (.error .emptyQuery, e)
  else if useCache then
    match e.fetch text now with
    | (some a, e) => (.ok a, e)
    | (none, e) =>
      let a := e.execute text now
      (.ok a, e.keep text a now)
  else (.ok (e.execute text now), e)

/-- Plans a question and remembers it. -/
def plan (e : Engine S M) (text : String) (now : Instant) : Result S (Plan S × Engine S M) := do
  let cached := e.cache.contains (Query.answerKey text) now
  let (plan, planner) ← e.planner.optimize e.graph text cached now
  return (plan, { e with planner })

/-- At most so many other questions, most confident first. -/
def suggest (e : Engine S M) (text : String) (most : Nat) : List (Suggestion S) :=
  e.planner.suggest e.graph text most

end Query

end Engine

end GraphReasoner
