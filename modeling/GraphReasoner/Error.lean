import GraphReasoner.Decimal.Layout

/-!
# What can go wrong

Nothing found is never an error: searches answer with empty results. Errors are kept for malformed
input and for storage that fails, and each says its cause. `GraphReasoner.StorageError` holds the
causes of a cache medium, which the cache itself never lets out of a look-up or an insertion;
`GraphReasoner.ReasonerError` holds all causes a caller meets.

* `GraphReasoner.ReasonerError.message` – the text of an error;
* `GraphReasoner.ReasonerError.code` – the stable name under which it is reported.
-/

namespace GraphReasoner

/-- What a cache medium can fail with. -/
inductive StorageError
  /-- The file system refused. -/
  | io (path : String)
  /-- The database refused. -/
  | database
  /-- An entry could not be written as text. -/
  | encoding
  /-- The key cannot be part of a file name. -/
  | invalidKey (key : String)
  /-- The stored index cannot be read. -/
  | corruptIndex (path : String)
deriving DecidableEq, Repr, Inhabited

/-- What makes a rule invalid. -/
inductive RuleDefect (S : Type)
  | emptyId
  | emptyPremise
  | emptyConclusion
  | factorOutOfRange (factor : S)

/-- What makes settings invalid. -/
inductive SettingsDefect (S : Type)
  /-- A number that has to lie in the unit interval does not. -/
  | outsideUnit (name : String) (value : S)
  | inferenceWithoutHops
  /-- A bound of a search is zero. -/
  | zeroBound (name : String)
  | noHistory
  | similarityOutsideUnit (value : S)
  | noBudget
  /-- A medium that needs a directory has none. -/
  | noDirectory (medium : String)

/-- What a caller can be told. -/
inductive ReasonerError (S : Type)
  | invalidConfidence (context : String) (value : S)
  | missingField (kind field : String)
  | duplicateEntity (id : String)
  | unknownEntity (id : String)
  | invalidInterval (relation : String)
  | invalidRule (id : String) (defect : RuleDefect S)
  | duplicateRule (id : String)
  | unknownRule (id : String)
  | ruleText (source : String)
  | invalidProbability (value : S)
  | invalidEvidence (relation : String)
  | storage (error : StorageError)
  | emptyQuery
  | settingsUnread (path : String)
  | settingsUnwritten (path : String)
  | settingsText (path : String)
  | invalidSettings (defect : SettingsDefect S)

variable {S : Type}

/-- The text of a storage error, without what the system below reports. -/
def StorageError.message : StorageError → String
  | io path => s!"cache I/O error at {path}"
  | database => "redb error"
  | encoding => "cache serialization error"
  | invalidKey key => "cache key `" ++ key ++ "` is not usable as a file name"
  | corruptIndex path => s!"corrupt cache index at {path}"

/-- The stable name of a storage error. -/
def StorageError.code : StorageError → String
  | io _ => "kg::cache::io"
  | database => "kg::cache::redb"
  | encoding => "kg::cache::serde"
  | invalidKey _ => "kg::cache::invalid_key"
  | corruptIndex _ => "kg::cache::corrupt_index"

section Messages

variable [Numeral S]

/-- The text of a rule's defect. -/
def RuleDefect.message : RuleDefect S → String
  | emptyId => "id is empty"
  | emptyPremise => "premise types must be non-empty"
  | emptyConclusion => "conclusion type is empty"
  | factorOutOfRange factor =>
    "confidence factor " ++ Numeral.display factor ++ " is outside (0, 1]"

/-- The text of a defect of settings. -/
def SettingsDefect.message : SettingsDefect S → String
  | outsideUnit name value => name ++ " = " ++ Numeral.display value ++ " is outside [0, 1]"
  | inferenceWithoutHops => "inference.max_path_length and inference.max_hops must be at least 1"
  | zeroBound name => name ++ " must be at least 1"
  | noHistory => "planner.history_capacity must be at least 1"
  | similarityOutsideUnit value =>
    "planner.similarity_threshold must be in [0, 1], got " ++ Numeral.display value
  | noBudget => "cache.max_size_bytes must be greater than 0"
  | noDirectory medium => s!"storage.dir is required for the {medium} backend"

/-- The text of an error, without what the systems below report. -/
def ReasonerError.message : ReasonerError S → String
  | invalidConfidence context value =>
    context ++ " confidence " ++ Numeral.display value ++ " is outside [0, 1]"
  | missingField kind field => "missing required field `" ++ field ++ "` on " ++ kind
  | duplicateEntity id => "entity `" ++ id ++ "` already exists with different content"
  | unknownEntity id => "relation references unknown entity `" ++ id ++ "`"
  | invalidInterval relation => s!"invalid temporal bounds on {relation}: end precedes start"
  | invalidRule id defect => "invalid rule `" ++ id ++ "`: " ++ defect.message
  | duplicateRule id => "rule `" ++ id ++ "` is already registered"
  | unknownRule id => "rule `" ++ id ++ "` not found"
  | ruleText source => s!"failed to parse rule set from {source}"
  | invalidProbability value => "probability " ++ Numeral.display value ++ " is outside [0, 1]"
  | invalidEvidence relation => s!"evidence property on {relation} is not a list of strings"
  | storage error => error.message
  | emptyQuery => "query text is empty"
  | settingsUnread path => s!"failed to read config {path}"
  | settingsUnwritten path => s!"failed to write config {path}"
  | settingsText path => s!"failed to parse config {path}"
  | invalidSettings defect => "invalid configuration: " ++ defect.message

end Messages

/-- The stable name of an error. -/
def ReasonerError.code : ReasonerError S → String
  | invalidConfidence _ _ => "kg::graph::invalid_confidence"
  | missingField _ _ => "kg::graph::missing_field"
  | duplicateEntity _ => "kg::graph::duplicate_entity"
  | unknownEntity _ => "kg::graph::unknown_entity"
  | invalidInterval _ => "kg::graph::invalid_interval"
  | invalidRule _ _ => "kg::infer::invalid_rule"
  | duplicateRule _ => "kg::infer::duplicate_rule"
  | unknownRule _ => "kg::infer::unknown_rule"
  | ruleText _ => "kg::infer::rule_parse"
  | invalidProbability _ => "kg::infer::invalid_probability"
  | invalidEvidence _ => "kg::infer::invalid_evidence"
  | storage error => error.code
  | emptyQuery => "kg::query::empty"
  | settingsUnread _ => "kg::config::read"
  | settingsUnwritten _ => "kg::config::write"
  | settingsText _ => "kg::config::parse"
  | invalidSettings _ => "kg::config::invalid"

/-- An action that may end in an error a caller is told. -/
abbrev Result (S : Type) := Except (ReasonerError S)

end GraphReasoner
