import GraphReasoner.Graph.Store
import GraphReasoner.Query.Token

/-!
# Mentions

A question mentions an entity by a part of its text. Mentions are looked for in three passes over
the lowercase text:

* a token that equals the identifier or the name of an entity;
* a name of several words, or one that is not ASCII, that occurs in the text as it stands; it takes
  the place of the mentions that start inside it;
* a remaining token of three characters at least that means something, which may occur inside an
  identifier or a name; it is a mention even when it occurs in none.

Every text is mentioned once, and mentions are listed by where they occur. What is found, together
with the kind of the question and the types of relations it mentions, is a
`GraphReasoner.Query.Question`.
-/

namespace GraphReasoner.Query

open GraphReasoner.Text

/-- A part of a question and the entities it may denote. -/
structure Mention where
  /-- The part, in lowercase. -/
  text : String
  /-- The identifiers of the entities; none when nothing matches. -/
  candidates : List String
deriving DecidableEq, Repr, Inhabited

/-- Whether a mention denotes an entity at all. -/
def Mention.isResolved (m : Mention) : Bool :=
  !m.candidates.isEmpty

/-- What a question says. -/
structure Question where
  kind : Kind
  mentions : List Mention
  /-- The types of relations it mentions. -/
  relationKinds : List String
deriving DecidableEq, Repr, Inhabited

namespace Question

/-- The mentions that denote an entity. -/
def resolved (q : Question) : List Mention :=
  q.mentions.filter Mention.isResolved

/-- The share of mentions that denote an entity; zero without mentions. -/
def coverage {S : Type} [Scalar S] (q : Question) : S :=
  if q.mentions.isEmpty then 0.0 else (q.resolved.length : S) / (q.mentions.length : S)

/-- The entities that are mentioned, each once. -/
def matchedNodes (q : Question) : List String :=
  (q.resolved.flatMap Mention.candidates).eraseDups

/-- The texts of the mentions. -/
def mentionTexts (q : Question) : List String :=
  q.mentions.map Mention.text

end Question

/-- The least length of a token that is looked for inside names. -/
def leastInnerLength : Nat := 3

/-- Whether a token is a word of the vocabulary, by itself or in a phrase. -/
def isKeyword (token : List Char) : Bool :=
  (emptyWords ++ pathWords ++ neighborWords ++ subgraphWords).contains (String.ofList token) ||
    relationPhrases.any fun (_, phrases) =>
      phrases.any fun p => (cutAt (· == ' ') p.toList).contains token

/-- An entity as questions name it: its identifier, and the lowercase forms of identifier
and name. -/
structure Target where
  id : String
  lowerId : List Char
  lowerName : List Char

/-- How questions name an entity. -/
def Target.ofEntity {S : Type} (e : Entity S) : Target :=
  ⟨e.id, lower e.id.toList, lower e.name.toList⟩

/-- The byte positions of tokens in a text, each looked for after the one before. A token that is
not found stands where the search for it began. -/
def locate (text : List Char) (start : Nat) : List (List Char) → List Nat
  | [] => []
  | token :: ts =>
    match find token start text with
    | some (position, rest) => position :: locate rest (position + byteLength token) ts
    | none => start :: locate text start ts

/-- The mentions found so far, with their positions, and the texts that are taken. -/
structure Found where
  mentions : List (Nat × Mention)
  claimed : List (List Char)

namespace Found

/-- Nothing found. -/
def empty : Found := ⟨[], []⟩

/-- Adds a mention of a text. -/
def claim (f : Found) (text : List Char) (position : Nat) (candidates : List String) : Found :=
  { mentions := f.mentions ++ [(position, ⟨String.ofList text, candidates⟩)]
    claimed := text :: f.claimed }

/-- The first pass at one token: identifiers and names that equal it. -/
def addExact (targets : List Target) (f : Found) (occurrence : List Char × Nat) : Found :=
  let (token, position) := occurrence
  let matching := (targets.filter fun t => t.lowerId == token || t.lowerName == token).map Target.id
  if matching.isEmpty || f.claimed.contains token then f else f.claim token position matching

/-- Whether a name has several words or is not ASCII. -/
def isPhrase (name : List Char) : Bool :=
  name.any isBlank || !isAscii name

/-- The second pass at one entity: a phrase that is its name takes the place of what starts inside
it. -/
def addPhrase (text : List Char) (f : Found) (target : Target) : Found :=
  let name := target.lowerName
  if !isPhrase name || f.claimed.contains name then f
  else
    match find name 0 text with
    | none => f
    | some (position, _) =>
      let outside := f.mentions.filter fun (p, _) =>
        p < position || position + byteLength name ≤ p
      { f with mentions := outside }.claim name position [target.id]

/-- Whether a position lies inside one of some mentions. -/
def covers (mentions : List (Nat × Mention)) (position : Nat) : Bool :=
  mentions.any fun (start, m) => start ≤ position && position < start + byteLength m.text.toList

/-- The third pass at one token: identifiers and names that it occurs in. -/
def addInner (targets : List Target) (covered : List (Nat × Mention)) (f : Found)
    (occurrence : List Char × Nat) : Found :=
  let (token, position) := occurrence
  if f.claimed.contains token || !isAscii token || isKeyword token ||
      token.length < leastInnerLength || covers covered position then f
  else
    let matching := targets.filter fun t =>
      occursIn token t.lowerId || occursIn token t.lowerName
    f.claim token position (matching.map Target.id)

end Found

/-- The mentions of a text, by where they occur. -/
def mentionsOf (text : List Char) (targets : List Target) : List Mention :=
  let lowered := lower text
  let ts := tokens text
  let occurrences := ts.zip (locate lowered 0 ts)
  let found := occurrences.foldl (Found.addExact targets) .empty
  let found := targets.foldl (Found.addPhrase lowered) found
  let found := occurrences.foldl (Found.addInner targets found.mentions) found
  (found.mentions.mergeSort fun a b => a.1 ≤ b.1).map Prod.snd

/-- What a text asks about a graph. -/
def parse {S : Type} (text : String) (g : Graph S) : Question where
  kind := classify text
  mentions := mentionsOf text.toList (g.entities.map Target.ofEntity)
  relationKinds := relationMentions text

end GraphReasoner.Query
