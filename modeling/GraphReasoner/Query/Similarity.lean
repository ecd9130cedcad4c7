import GraphReasoner.Query.Token
import GraphReasoner.Scalar
import GraphReasoner.Table

/-!
# Similar questions

Questions are compared by their words. A word weighs more in a text the more often it occurs there,
and less the more texts it occurs in; the weights of a text are scaled to a vector of length one,
and the similarity of two texts is the inner product of their vectors.

* `GraphReasoner.Query.weights` – the vectors of some texts, weighted against each other;
* `GraphReasoner.Query.cosine` – the inner product of two vectors;
* `GraphReasoner.Query.similarities` – the similarity of a text to each of some others.
-/

namespace GraphReasoner.Query

/-- The words of a text that count. -/
def terms (text : String) : List String :=
  (tokenize text).filter fun t => !uncountedWords.contains t

variable {S : Type} [Scalar S]

/-- A sparse vector over words. -/
abbrev TermVector (S : Type) := Table S

/-- Counts the words of a list, on top of counts there are already. -/
def countWords (counts : Table Nat) (words : List String) : Table Nat :=
  words.foldl (fun t word => t.update word 0 (· + 1)) counts

/-- The number of texts each word occurs in. However often a word occurs in a text, the text counts
once. -/
def documentFrequencies (documents : List (List String)) : Table Nat :=
  documents.foldl (fun t document => countWords t (TextSet.ofList document).toList) []

/-- How much an occurrence of a word weighs that occurs in so many texts out of a total: one, and
more the fewer texts it occurs in. -/
def rarity (total frequency : Nat) : S :=
  Scalar.log ((1.0 + (total : S)) / (1.0 + (frequency : S))) + 1.0

/-- The number of occurrences of each word of a text, times what an occurrence weighs. -/
def rawWeights (total : Nat) (frequencies : Table Nat) (document : List String) : TermVector S :=
  (countWords [] document).map fun (word, count) =>
    (word, (count : S) * rarity total ((frequencies.get? word).getD 0))

/-- The length of a vector. -/
def norm (v : TermVector S) : S :=
  Scalar.sqrt (Scalar.sum (v.map fun e => e.2 * e.2))

/-- A vector scaled to length one; the zero vector stays. -/
def normalize (v : TermVector S) : TermVector S :=
  if (0.0 : S) < norm v then v.map fun e => (e.1, e.2 / norm v) else v

/-- The vectors of some texts, given by their words. -/
def weightsOf (documents : List (List String)) : List (TermVector S) :=
  let frequencies := documentFrequencies documents
  documents.map fun document => normalize (rawWeights documents.length frequencies document)

/-- The vectors of some texts. -/
def weights (texts : List String) : List (TermVector S) :=
  weightsOf (texts.map terms)

/-- The inner product of two vectors, taken over the words of the first one. -/
def innerProduct (a b : TermVector S) : S :=
  Scalar.sum (a.filterMap fun e => (b.get? e.1).map fun w => e.2 * w)

/-- The inner product of two vectors, taken over the words of the one with fewer. -/
def cosine (a b : TermVector S) : S :=
  if a.length ≤ b.length then innerProduct a b else innerProduct b a

/-- The similarity of a text to each text of a corpus, all weighted together. -/
def similarities (text : String) (corpus : List String) : List S :=
  let vectors := (weights (corpus ++ [text]) : List (TermVector S))
  match vectors.getLast? with
  | none => []
  | some v => vectors.dropLast.map (cosine v)

end GraphReasoner.Query
