import GraphReasoner.Chain.Layer
import GraphReasoner.Chain.Settings
import GraphReasoner.Table

/-!
# Chains of probabilities

A relation with a probability can be a step of a chain of probabilities. The probabilities of the
steps multiply, and a chain whose product reaches the threshold yields one relation between its
ends. Its evidence is the evidence of all steps together, each piece with the greatest score that a
step gives it.

* `GraphReasoner.Evidenced` – a valid relation with a probability and scored evidence;
* `GraphReasoner.Evidenced.ofRelation?` – read off the properties `probability` and `evidence`;
* `GraphReasoner.Evidenced.infer` – what the chains of a layer yield.
-/

namespace GraphReasoner

/-- A relation, its probability, and the evidence for it. -/
structure Evidenced (S : Type) where
  relation : Relation S
  probability : S
  /-- The identifiers of the evidence. -/
  evidence : TextSet
  /-- The score of each piece of evidence. -/
  scores : Table S

namespace Evidenced

variable {S : Type} [Scalar S]

/-- Refuses a number outside the unit interval. -/
def checkProbability (p : S) : Result S Unit :=
  if Scalar.InUnit p then .ok () else .error (.invalidProbability p)

/-- Gives a valid relation a probability and evidence, each piece with score one. -/
def make (r : Relation S) (probability : S) (evidence : List String) : Result S (Evidenced S) := do
  r.validate
  checkProbability probability
  let evidence := TextSet.ofList evidence
  return ⟨r, probability, evidence, evidence.toList.map fun id => (id, 1.0)⟩

/-- Gives one piece of evidence a score. New evidence is added. -/
def score (e : Evidenced S) (id : String) (s : S) : Result S (Evidenced S) := do
  checkProbability s
  return { e with evidence := e.evidence.add id, scores := e.scores.insert id s }

/-- Gives pieces of evidence scores, one after another. -/
def withScores (e : Evidenced S) (scores : List (String × S)) : Result S (Evidenced S) :=
  scores.foldlM (fun e (id, s) => e.score id s) e

/-- The evidence that a relation names, which has to be a list of texts. -/
def evidenceOf (r : Relation S) : Result S (List String) :=
  match r.properties.get? "evidence" with
  | none => .ok []
  | some value =>
    match value.asTextList with
    | some ids => .ok ids
    | none => .error (.invalidEvidence r.describe)

/-- The evidenced relation of a relation that has a probability among its properties. -/
def ofRelation? (r : Relation S) : Option (Result S (Evidenced S)) :=
  (r.properties.number? "probability").map fun probability => do
    make r probability (← evidenceOf r)

/-- Adds the scores of a step, keeping the greater score of each piece of evidence. -/
def mergeScores (scores step : Table S) : Table S :=
  step.foldl (fun scores (id, s) =>
    match scores.get? id with
    | some old => scores.insert id (Scalar.greater old s)
    | none => scores.insert id s) scores

/-- The product of the probabilities of a chain. -/
def chainProbability (chain : List (Evidenced S)) : S :=
  Scalar.product (chain.map probability)

/-- The relation that a chain yields. -/
def conclude (source target : Entity S) (kind : String) (chain : List (Evidenced S)) :
    Evidenced S :=
  let probability := chainProbability chain
  let properties := Properties.ofList
    [("inferred", .bool true), ("inference", .text "probabilistic"),
      ("path_length", .ofNat chain.length)]
  { relation := Relation.derived source target kind probability properties
    probability
    evidence := chain.foldl (fun ids e => ids.union e.evidence) []
    scores := chain.foldl (fun scores e => mergeScores scores e.scores) [] }

/-- The relations that the chains between two entities yield whose product reaches the threshold. -/
def infer (layer : Layer (Evidenced S)) (settings : ChainSettings S) (source target : Entity S)
    (kind : String) : List (Evidenced S) :=
  ((layer.paths source.id target.id settings.maxPathLength).filter
    fun chain => ¬ chainProbability chain < settings.probabilityThreshold).map
      (conclude source target kind)

/-- An evidenced relation as a document. -/
def toJson (e : Evidenced S) : Json S :=
  .object [("relation", e.relation.toJson), ("probability", .float e.probability),
    ("evidence", .texts e.evidence.toList),
    ("confidence_scores", .object (e.scores.map fun (id, s) => (id, .float s)))]

end Evidenced

end GraphReasoner
