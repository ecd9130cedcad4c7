import GraphReasoner.Error
import GraphReasoner.Json.Fields

/-!
# Settings of chain inference

Thresholds lie in the unit interval and bounds are at least one;
`GraphReasoner.ChainSettings.defect?` reports the first that is not.
-/

namespace GraphReasoner

/-- The thresholds and bounds of chain inference. -/
structure ChainSettings (S : Type) where
  /-- The least probability of a chain of probabilities. -/
  probabilityThreshold : S
  /-- A floor for the confidence of temporal chains. It is checked but not applied. -/
  minPathConfidence : S
  /-- The greatest number of edges of a temporal or probabilistic chain. -/
  maxPathLength : Nat
  /-- The least confidence of a walk. -/
  minConfidence : S
  /-- The greatest number of edges of a walk. -/
  maxHops : Nat

namespace ChainSettings

variable {S : Type} [Scalar S]

/-- The settings that hold when none are given. -/
def default : ChainSettings S :=
  ⟨0.6, 0.2, 5, 0.5, 3⟩

instance : Inhabited (ChainSettings S) := ⟨default⟩

instance : BEq (ChainSettings S) :=
  ⟨fun a b => a.probabilityThreshold == b.probabilityThreshold &&
    a.minPathConfidence == b.minPathConfidence && a.maxPathLength == b.maxPathLength &&
    a.minConfidence == b.minConfidence && a.maxHops == b.maxHops⟩

/-- The thresholds by name. -/
def thresholds (s : ChainSettings S) : List (String × S) :=
  [("inference.probability_threshold", s.probabilityThreshold),
    ("inference.min_path_confidence", s.minPathConfidence),
    ("inference.min_confidence", s.minConfidence)]

/-- The first defect, if there is one. -/
def defect? (s : ChainSettings S) : Option (SettingsDefect S) :=
  match s.thresholds.find? fun t => ¬ Scalar.InUnit t.2 with
  | some (name, value) => some (.outsideUnit name value)
  | none => if s.maxPathLength = 0 ∨ s.maxHops = 0 then some .inferenceWithoutHops else none

/-- Settings as a document. -/
def toJson (s : ChainSettings S) : Json S :=
  .object [("probability_threshold", .float s.probabilityThreshold),
    ("min_path_confidence", .float s.minPathConfidence), ("max_path_length", .int s.maxPathLength),
    ("min_confidence", .float s.minConfidence), ("max_hops", .int s.maxHops)]

/-- Settings from a document, with a default for every field. -/
def ofJson? (dialect : Json.Dialect) (document : Json S) : Option (ChainSettings S) := do
  let fields ← document.fields? dialect
    ["probability_threshold", "min_path_confidence", "max_path_length", "min_confidence",
      "max_hops"]
  let base : ChainSettings S := default
  let probabilityThreshold ←
    fields.withDefault "probability_threshold" base.probabilityThreshold Json.asNumber
  let minPathConfidence ←
    fields.withDefault "min_path_confidence" base.minPathConfidence Json.asNumber
  let maxPathLength ← fields.withDefault "max_path_length" base.maxPathLength Json.asNat
  let minConfidence ← fields.withDefault "min_confidence" base.minConfidence Json.asNumber
  let maxHops ← fields.withDefault "max_hops" base.maxHops Json.asNat
  return ⟨probabilityThreshold, minPathConfidence, maxPathLength, minConfidence, maxHops⟩

end ChainSettings

end GraphReasoner
