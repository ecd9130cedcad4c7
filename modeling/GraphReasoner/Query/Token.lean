import GraphReasoner.Query.Vocabulary
import GraphReasoner.Text.Blank
import GraphReasoner.Text.LowerCase
import GraphReasoner.Text.Search

/-!
# Tokens of a question

A question falls into tokens at blanks and punctuation; the underscore and the hyphen belong to
words. Each token is put into lowercase by itself. What a question asks for, and which types of
relations it mentions, is then a matter of looking tokens and phrases up.

* `GraphReasoner.Query.tokenize` – the tokens of a text;
* `GraphReasoner.Query.Kind`, `GraphReasoner.Query.classify` – what a question asks for;
* `GraphReasoner.Query.relationMentions` – the types of relations it mentions.
-/

namespace GraphReasoner.Query

open GraphReasoner.Text

/-- ASCII punctuation. -/
def isPunctuation (c : Char) : Bool :=
  let n := c.toNat
  (33 ≤ n && n ≤ 47) || (58 ≤ n && n ≤ 64) || (91 ≤ n && n ≤ 96) || (123 ≤ n && n ≤ 126)

/-- Whether a character parts tokens without being a blank: ASCII punctuation other than the
underscore and the hyphen, and seven full-width marks. -/
def isSeparator (c : Char) : Bool :=
  (isPunctuation c && c != '_' && c != '-') ||
    ['，', '。', '！', '？', '、', '；', '：'].contains c

/-- The tokens of a text, in lowercase, as lists of characters. -/
def tokens (text : List Char) : List (List Char) :=
  ((cutAt (fun c => isBlank c || isSeparator c) text).filter fun t => !t.isEmpty).map lower

/-- The tokens of a text, in lowercase. -/
def tokenize (text : String) : List String :=
  (tokens text.toList).map String.ofList

/-- What a question asks for. -/
inductive Kind
  | path
  | neighbors
  | subgraph
  | general
deriving DecidableEq, Repr, Inhabited

namespace Kind

/-- Every kind with its name. -/
def named : List (String × Kind) :=
  [("path", path), ("neighbors", neighbors), ("subgraph", subgraph), ("general", general)]

/-- The name of a kind. -/
def name : Kind → String
  | path => "path"
  | neighbors => "neighbors"
  | subgraph => "subgraph"
  | general => "general"

end Kind

/-- Whether one of the words occurs: an ASCII word as a token, any other anywhere in the text. -/
def mentionsWord (words : List String) (text : List Char) (ts : List (List Char)) : Bool :=
  words.any fun w => if isAscii w.toList then ts.contains w.toList else occursIn w.toList text

/-- What a question asks for. A word for a subgraph decides before a word for neighbors, and that
before a word for a path. -/
def classify (text : String) : Kind :=
  let lowered := lower text.toList
  let ts := tokens lowered
  if mentionsWord subgraphWords lowered ts then .subgraph
  else if mentionsWord neighborWords lowered ts then .neighbors
  else if mentionsWord pathWords lowered ts then .path
  else .general

/-- Tokens joined by single blanks, with a blank at both ends. -/
def spaced (ts : List (List Char)) : List Char :=
  ' ' :: (List.intercalate [' '] ts ++ [' '])

/-- Whether a phrase occurs: an ASCII phrase as a run of whole tokens, any other anywhere. -/
def mentionsPhrase (phrase : List Char) (text : List Char) (ts : List (List Char)) : Bool :=
  if isAscii phrase then occursIn (' ' :: (phrase ++ [' '])) (spaced ts) else occursIn phrase text

/-- The types of relations that a text mentions, in the order of the table. -/
def relationMentions (text : String) : List String :=
  let lowered := lower text.toList
  let ts := tokens text.toList
  (relationPhrases.filter fun (_, phrases) =>
    phrases.any fun p => mentionsPhrase p.toList lowered ts).map Prod.fst

end GraphReasoner.Query
