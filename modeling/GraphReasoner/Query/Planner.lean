import GraphReasoner.Graph.Centrality
import GraphReasoner.Query.Plan
import GraphReasoner.Query.Similarity
import GraphReasoner.Time.Rfc3339

/-!
# The planner

The planner remembers the questions it planned, the latest ones up to a capacity, and proposes
questions worth trying from three sources:

* questions it remembers that are similar enough;
* a form of words for the kind of the question, with the names of the entities mentioned;
* for each entity mentioned, its most central neighbors.

A suggestion never repeats the text it was asked for, and no two suggest the same.

* `GraphReasoner.Query.Planner.optimize` – plans a question and remembers it;
* `GraphReasoner.Query.Planner.suggest` – the best suggestions, most confident first.
-/

namespace GraphReasoner.Query

open GraphReasoner.Time (Instant)

/-- A question that was planned. -/
structure HistoryEntry (S : Type) where
  text : String
  kind : Kind
  /-- The texts of the mentions. -/
  mentions : List String
  cost : S
  time : Instant

/-- Where a suggestion comes from. -/
inductive SuggestionSource
  | history
  | template
  | graphStructure
deriving DecidableEq, Repr

/-- A question worth trying. -/
structure Suggestion (S : Type) where
  /-- The text that suggestions were asked for. -/
  asked : String
  suggested : String
  confidence : S
  explanation : String
  source : SuggestionSource

/-- The name of a source. -/
def SuggestionSource.name : SuggestionSource → String
  | history => "history"
  | template => "template"
  | graphStructure => "structure"

/-- The questions that were planned, oldest first. -/
structure Planner (S : Type) where
  settings : PlannerSettings S
  history : List (HistoryEntry S)

variable {S : Type}

/-- A remembered question as a document. -/
def HistoryEntry.toJson (e : HistoryEntry S) : Json S :=
  .object [("query", .string e.text), ("query_type", .string e.kind.name),
    ("mentions", .texts e.mentions), ("estimated_cost", .float e.cost),
    ("timestamp", .string e.time.toText)]

/-- A suggestion as a document. -/
def Suggestion.toJson (s : Suggestion S) : Json S :=
  .object [("original_query", .string s.asked), ("suggested_query", .string s.suggested),
    ("confidence", .float s.confidence), ("explanation", .string s.explanation),
    ("source", .string s.source.name)]

namespace Planner

/-- The planner without history. The buffer of its history is reserved for the whole capacity, so
the capacities that are meant are those for which there can be such a buffer: all entries together
take at most `2 ^ 63 - 1` bytes, and there is memory for them. For other capacities there is no
planner, and this is left out here. -/
def empty (settings : PlannerSettings S) : Planner S :=
  ⟨settings, []⟩

/-- The guard of the loop that makes room: once the capacity is reached, it takes the oldest
question out, if there is one. The loop ends when it takes nothing. -/
def forgetOldest? (capacity : Nat) (history : List (HistoryEntry S)) :
    Option (List (HistoryEntry S)) :=
  if capacity ≤ history.length then history.tail? else none

theorem length_of_forgetOldest? {capacity : Nat} {history rest : List (HistoryEntry S)}
    (h : forgetOldest? capacity history = some rest) : history.length = rest.length + 1 := by
  unfold forgetOldest? at h
  split at h
  · cases history with
    | nil => cases h
    | cons oldest others =>
      obtain rfl := Option.some.inj h
      rfl
  · cases h

/-- Forgets the oldest questions until there is room for one more. -/
def makeRoom (capacity : Nat) (history : List (HistoryEntry S)) : List (HistoryEntry S) :=
  match _ : forgetOldest? capacity history with
  | some rest => makeRoom capacity rest
  | none => history
termination_by history.length
decreasing_by
  have hlength := length_of_forgetOldest? ‹_›
  omega

/-- Remembers a question, forgetting the oldest ones past the capacity. With a capacity of zero
nothing is remembered. -/
def remember (p : Planner S) (entry : HistoryEntry S) : Planner S :=
  let capacity := p.settings.historyCapacity
  if capacity = 0 then p else { p with history := makeRoom capacity p.history ++ [entry] }

/-- Forgets every question. -/
def clear (p : Planner S) : Planner S :=
  { p with history := [] }

variable [Scalar S]

/-- Plans a question, given whether its answer is stored, and remembers it. A blank text
is refused. -/
def optimize (p : Planner S) (g : Graph S) (text : String) (cached : Bool) (now : Instant) :
    Result S (Plan S × Planner S) :=
  if Text.AllBlank text then .error .emptyQuery
  else
    let q := parse text g
    let made := plan p.settings g q (answerKey text) cached
    .ok (made, p.remember ⟨text, q.kind, q.mentionTexts, made.cost, now⟩)

/-- The remembered questions that are similar to a text, most similar first. -/
def fromHistory (p : Planner S) (text : String) (most : Nat) : List (Suggestion S) :=
  let corpus := ((p.history.map HistoryEntry.text).filter fun past => past != text).eraseDups
  let scored := ((similarities text corpus).zip corpus).filter fun (s, _) =>
    p.settings.similarityThreshold < s
  let ranked := scored.mergeSort fun a b => Scalar.descending a.1 b.1 != .gt
  (ranked.take most).map fun (s, past) =>
    { asked := text, suggested := past, confidence := Scalar.lesser s 1.0
      explanation := "similar to an earlier query", source := .history }

/-- The entities that the mentions denote first. -/
def firstEntities (g : Graph S) (q : Question) : List (Entity S) :=
  q.resolved.filterMap fun m => m.candidates.head?.bind g.entity?

/-- The form of words for a kind of question, with names filled in. -/
def template? (kind : Kind) (names : List String) : Option String :=
  match kind, names with
  | .path, a :: b :: _ => some (s!"find the relation between {a} and {b}")
  | .neighbors, a :: _ => some (s!"find concepts related to {a}")
  | .subgraph, a :: _ => some (s!"extract the knowledge subgraph about {a}")
  | _, _ => none

/-- The suggestion from the form of words. -/
def fromTemplate (g : Graph S) (text : String) (q : Question) : List (Suggestion S) :=
  match template? q.kind ((firstEntities g q).map Entity.name) with
  | none => []
  | some suggested =>
    [{ asked := text, suggested, confidence := 0.8
       explanation := q.kind.name ++ " query template", source := .template }]

/-- The suggestions from the most central neighbors. -/
def fromStructure (g : Graph S) (text : String) (q : Question) : List (Suggestion S) :=
  (firstEntities g q).filterMap fun e =>
    let names := (g.centralNeighbors e.id 2).map fun (id, _) =>
      ((g.entity? id).map Entity.name).getD id
    if names.isEmpty then none
    else some
      { asked := text
        suggested := "analyze the relation between " ++ e.name ++ " and " ++ Text.join ", " names
        confidence := 0.7
        explanation := "central neighbors in the graph"
        source := .graphStructure }

/-- Every suggestion for a text, before repeated ones are dropped. -/
def candidates (p : Planner S) (g : Graph S) (text : String) (most : Nat) : List (Suggestion S) :=
  let q := parse text g
  p.fromHistory text most ++ fromTemplate g text q ++ fromStructure g text q

/-- The first suggestion of each text. -/
def firstOfEach (suggestions : List (Suggestion S)) : List (Suggestion S) :=
  suggestions.foldl (fun kept s =>
    if kept.any fun other => other.suggested == s.suggested then kept else kept ++ [s]) []

/-- At most so many suggestions for a text, most confident first. -/
def suggest (p : Planner S) (g : Graph S) (text : String) (most : Nat) : List (Suggestion S) :=
  let distinct := firstOfEach ((p.candidates g text most).filter fun s => s.suggested != text)
  (distinct.mergeSort fun a b => Scalar.descending a.confidence b.confidence != .gt).take most

end Planner

end GraphReasoner.Query
