import GraphReasoner.Cache.Statistics
import GraphReasoner.CommandLine.Args
import GraphReasoner.Engine.Session
import GraphReasoner.Engine.Summary

/-!
# Running a command line

A command line opens an engine on the files it names, carries out one command and closes the engine.
What it prints is a list of lines, either for people or one document; what goes wrong is one line of
its own, and then nothing else is printed. The exit code tells what happened: 0 when all went well,
1 when the command failed, 2 when the command line was not understood, and 101 when the program
stopped because more memory was asked for than there can be. A program that stops closes its engine
all the same.

* `GraphReasoner.CommandLine.answer` – what a command prints, and the engine after it;
* `GraphReasoner.CommandLine.run` – a whole command line, on a tree of files.
-/

namespace GraphReasoner.CommandLine

open GraphReasoner.Time (Instant)

/-- The end of a run. -/
structure Report where
  /-- The exit code. -/
  code : Nat
  /-- The lines that are printed. -/
  lines : List String
  /-- What went wrong. -/
  complaint : Option String
deriving DecidableEq, Repr, Inhabited

/-- The version of the program. -/
def versionLine : String := "kg-reason 0.3.0"

/-- How the program is used. -/
def usageLine : String := "usage: kg-reason [--batch FILE] [--config FILE] [--json] COMMAND"

/-- The lines of a text. -/
def linesOf (text : String) : List String :=
  text.splitOn "\n"

/-- A text filled up with blanks to a width. -/
def padded (width : Nat) (text : String) : String :=
  text ++ String.ofList (List.replicate (width - text.length) ' ')

section Lines

variable {S : Type} [Numeral S]

/-- A document, over several lines. -/
def documentLines (document : Json S) : List String :=
  linesOf (Json.pretty document)

/-- A derivation, one line a relation, and the totals. -/
def derivationLines (d : Derivation S) : List String :=
  (d.derived.map fun r =>
    r.describe ++ "  confidence=" ++ Numeral.fixed 4 r.confidence ++
      "  rule=" ++ r.ruleId?.getD "-") ++
  [s!"{d.derived.length} derived, {d.skipped} skipped"]

/-- A report on chains. -/
def chainLines (r : ChainReport S) : List String :=
  if r.size = 0 then ["No relations inferred."] else r.explain

/-- An answer: its size, and its paths, or its nodes when it has no paths. -/
def answerLines (a : Query.Answer S) : List String :=
  (a.kind.name ++
    s!" query: {a.nodes.length} nodes, {a.edges.length} edges, {a.paths.length} paths" ++
    ", confidence " ++ Numeral.fixed 2 a.confidence ++ " (" ++ Numeral.fixed 3 a.elapsed ++ "s)") ::
  if a.paths.isEmpty then a.nodeIds.map fun id => "  " ++ id
  else a.paths.map fun path => "  " ++ Text.join " -> " path

/-- A plan, one numbered line a step. -/
def planLines (p : Query.Plan S) : List String :=
  let hits := if p.cached then "1" else "0"
  (p.kind.name ++ " query, estimated cost " ++ Numeral.fixed 2 p.cost ++
    " (cache hits: " ++ hits ++ ")") ::
  p.steps.zipIdx.map fun (step, i) =>
    s!"  {i + 1}. " ++ padded 40 step.description ++ " " ++ Numeral.fixed 2 step.cost

/-- Suggestions, one a line. -/
def suggestionLines (suggestions : List (Query.Suggestion S)) : List String :=
  if suggestions.isEmpty then ["No suggestions."]
  else suggestions.map fun s =>
    Numeral.fixed 2 s.confidence ++ "  " ++ s.suggested ++ "  (" ++ s.explanation ++ ")"

/-- The numbers of a cache, and of each kind of data in it. -/
def statisticsLines (usage : S) (s : CacheStatistics) : List String :=
  (s!"{s.count} items, {s.size} / {s.budget} bytes (" ++ Numeral.fixed 1 usage ++ "%)") ::
  s.kinds.map fun (kind, k) =>
    s!"  {kind}: {k.count} items, {k.size} bytes, {k.accesses} accesses"

end Lines

variable {S M : Type} [Numeral S] [Medium M]

/-- The engine with everything in its graph that its rules derive. -/
def withDerived (e : Engine S M) : Result S Unit × Engine S M :=
  match e.materialize e.infer.derived with
  | (.ok _, e) => (.ok (), e)
  | (.error error, e) => (.error error, e)

/-- Asks a question, perhaps after adding what the rules derive. -/
def ask (e : Engine S M) (text : String) (useCache withInferred : Bool) (now : Instant) :
    Result S (Query.Answer S) × Engine S M :=
  if withInferred then
    match withDerived e with
    | (.ok _, e) => e.query text useCache now
    | (.error error, e) => (.error error, e)
  else e.query text useCache now

/-- What a command prints, unless it stops the program, and the engine after it. -/
def answer (e : Engine S M) (json : Bool) (command : Command) (now : Instant) :
    Result S (Option (List String)) × Engine S M :=
  let shown (document : Json S) (lines : List String) : List String :=
    if json then documentLines document else lines
  match command with
  | .info => (.ok (some (shown e.summary.toJson e.summary.lines)), e)
  | .inferRules =>
    let d := e.infer
    (.ok (some (shown (.array (d.derived.map Relation.toJson)) (derivationLines d))), e)
  | .inferChains source target kind =>
    ((e.inferChains source target kind).map fun report =>
      report.map fun r => shown r.toJson (chainLines r), e)
  | .query text useCache withInferred =>
    let (result, e) := ask e text useCache withInferred now
    (result.map fun a => some (shown a.toJson (answerLines a)), e)
  | .plan text =>
    match e.plan text now with
    | .ok (p, e) => (.ok (some (shown (p.toJson 0.0) (planLines p))), e)
    | .error error => (.error error, e)
  | .suggest text most =>
    let suggestions := e.suggest text most
    let document : Json S := .array (suggestions.map Query.Suggestion.toJson)
    (.ok (some (shown document (suggestionLines suggestions))), e)
  | .rules =>
    let rules := e.rules.rules
    (.ok (some (shown (.array (rules.map Rule.toJson)) (rules.map Rule.summary))), e)
  | .cacheStatistics =>
    let s := e.cache.statistics now
    (.ok (some (shown s.toJson (statisticsLines (s.usage : S) s))), e)
  | .cacheClear => (.ok (some ["Cache cleared."]), { e with cache := e.cache.clear })

/-- The settings that a command line names, or the usual ones. -/
def settingsFor (root : Folder) (working : List String) : Option String → Result S (Settings S)
  | none => .ok .default
  | some path => Settings.load root working path

/-- The batch that a command line names, or the empty one. -/
def batchFor (root : Folder) (working : List String) : Option String → Except String (Batch S)
  | none => .ok .empty
  | some path =>
    match root.textAt (Folder.locate working path) with
    | .error _ => .error s!"failed to read batch {path}"
    | .ok text =>
      match (Json.read text).bind Batch.ofJson? with
      | some batch => .ok batch
      | none => .error s!"failed to parse batch {path}"

/-- A failure, as a report. -/
def failed (complaint : String) : Report :=
  ⟨1, [], some complaint⟩

/-- A program that was stopped, as a report. -/
def stopped : Report :=
  ⟨101, [], some "capacity overflow"⟩

/-- Carries out what a command line asks for, and yields the files as they are afterwards. -/
def carryOut (i : Invocation) (settings : Settings S) (batch : Batch S) (root : Folder)
    (working : List String) (now : Instant) : Report × Folder :=
  match Engine.openOn settings batch root working now with
  | (.error error, root) => (failed error.message, root)
  | (.ok engine, root) =>
    let (result, engine) := answer engine i.json i.command now
    let report := match result with
      | .ok (some lines) => ⟨0, lines, none⟩
      | .ok none => stopped
      | .error error => failed error.message
    (report, Engine.close engine.cache root)

/-- Runs a command line on a tree of files, seen from a working folder, over the numbers `S`. -/
def run (S : Type) [Numeral S] (arguments : List String) (root : Folder) (working : List String)
    (now : Instant) : Report × Folder :=
  match Invocation.ofArgs arguments with
  | .error .help => (⟨0, [usageLine], none⟩, root)
  | .error .version => (⟨0, [versionLine], none⟩, root)
  | .error .misuse => (⟨2, [], some usageLine⟩, root)
  | .ok i =>
    match (settingsFor root working i.config : Result S (Settings S)) with
    | .error error => (failed error.message, root)
    | .ok settings =>
      match batchFor root working i.batch with
      | .error complaint => (failed complaint, root)
      | .ok batch => carryOut i settings batch root working now

end GraphReasoner.CommandLine
