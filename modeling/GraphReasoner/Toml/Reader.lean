import GraphReasoner.Toml.Number
import GraphReasoner.Toml.Tree

/-!
# Reading TOML

A text is read as a list of statements, one a line, and the statements are then built into one
document. Values are texts in four kinds of quotes, truth values, numbers, dates and times, arrays,
which may span lines, and inline tables, which may not.

Recursion is bounded by the length of the text.

* `GraphReasoner.Toml.read` – a whole text as one document.
-/

namespace GraphReasoner.Toml

/-! ### Blanks, comments, line ends -/

/-- A blank within a line. -/
def isBlank (c : Char) : Bool :=
  c == ' ' || c == '\t'

/-- The text without the blanks in front. -/
def skipBlanks (text : List Char) : List Char :=
  text.dropWhile isBlank

/-- A control character other than the tab. No text and no comment holds one. -/
def isControl (c : Char) : Bool :=
  (c.toNat < 32 && c != '\t') || c.toNat == 127

/-- The rest of a text after a line end; a carriage return belongs to the line feed after it. -/
def lineEnd : List Char → Option (List Char)
  | '\n' :: rest => some rest
  | '\r' :: '\n' :: rest => some rest
  | _ => none

/-- The text without a comment in front. -/
def skipComment : List Char → List Char
  | '#' :: rest => rest.dropWhile fun c => !isControl c
  | text => text

/-- What may follow a statement on its line: blanks, a comment, and the end of the line or text. -/
def endOfStatement (text : List Char) : Option (List Char) :=
  match skipComment (skipBlanks text) with
  | [] => some []
  | text => lineEnd text

/-- The text without the blanks, comments and line ends in front, at most `fuel` of them. -/
def skipLines : Nat → List Char → List Char
  | 0, text => text
  | fuel + 1, text =>
    match skipBlanks text with
    | '#' :: rest => skipLines fuel (skipComment ('#' :: rest))
    | text =>
      match lineEnd text with
      | some rest => skipLines fuel rest
      | none => text

/-- The text without the blanks and line ends in front, at most `fuel` of the latter. -/
def skipBlankLines : Nat → List Char → List Char
  | 0, text => text
  | fuel + 1, text =>
    let text := skipBlanks text
    match lineEnd text with
    | some rest => skipBlankLines fuel rest
    | none => text

/-! ### Texts -/

/-- The value of hexadecimal digits, exactly `n` of them, as a character. -/
def codePoint (n : Nat) (text : List Char) : Option (Char × List Char) :=
  let digits := text.take n
  let value := valueIn 16 digits
  if digits.length = n ∧ digits.all isHexDigit ∧ value.isValidChar then
    some (Char.ofNat value, text.drop n)
  else none

/-- The character of an escape, after its backslash. -/
def escaped : List Char → Option (Char × List Char)
  | 'b' :: rest => some (Char.ofNat 8, rest)
  | 't' :: rest => some ('\t', rest)
  | 'n' :: rest => some ('\n', rest)
  | 'f' :: rest => some (Char.ofNat 12, rest)
  | 'r' :: rest => some ('\r', rest)
  | '"' :: rest => some ('"', rest)
  | '\\' :: rest => some ('\\', rest)
  | 'u' :: rest => codePoint 4 rest
  | 'U' :: rest => codePoint 8 rest
  | _ => none

/-- A text on one line, after its opening quote. Only double quotes know escapes. -/
def readLine (quote : Char) : Nat → List Char → Option (List Char × List Char)
  | 0, _ => none
  | fuel + 1, text =>
    match text with
    | [] => none
    | c :: rest =>
      if c = quote then some ([], rest)
      else if c = '\\' ∧ quote = '"' then
        match escaped rest with
        | some (e, rest) => (readLine quote fuel rest).map fun (cs, rest) => (e :: cs, rest)
        | none => none
      else if isControl c then none
      else (readLine quote fuel rest).map fun (cs, rest) => (c :: cs, rest)

/-- A backslash at the end of a line joins it to the next text, blank lines passed over. -/
def joinLines (text : List Char) : Option (List Char) :=
  (lineEnd (skipBlanks text)).map fun rest => skipBlankLines (rest.length + 1) rest

/-- A text over several lines, after its opening quotes. Up to two more quotes may stand before the
closing ones. -/
def readLong (quote : Char) : Nat → List Char → Option (List Char × List Char)
  | 0, _ => none
  | fuel + 1, text =>
    let quotes := text.takeWhile (· == quote)
    if 3 ≤ quotes.length then
      let extra := min 2 (quotes.length - 3)
      some (List.replicate extra quote, text.drop (3 + extra))
    else
      match text with
      | [] => none
      | c :: rest =>
        if c = '\\' ∧ quote = '"' then
          match joinLines rest with
          | some rest => readLong quote fuel rest
          | none =>
            match escaped rest with
            | some (e, rest) => (readLong quote fuel rest).map fun (cs, rest) => (e :: cs, rest)
            | none => none
        else
          match lineEnd (c :: rest) with
          | some rest => (readLong quote fuel rest).map fun (cs, rest) => ('\n' :: cs, rest)
          | none =>
            if isControl c then none
            else (readLong quote fuel rest).map fun (cs, rest) => (c :: cs, rest)

/-- A text in any kind of quotes. -/
def readText (text : List Char) : Option (List Char × List Char) :=
  match text with
  | '"' :: '"' :: '"' :: rest => long '"' rest
  | '\'' :: '\'' :: '\'' :: rest => long '\'' rest
  | '"' :: rest => readLine '"' (rest.length + 1) rest
  | '\'' :: rest => readLine '\'' (rest.length + 1) rest
  | _ => none
where
  /-- A line end right after the opening quotes does not count. -/
  long (quote : Char) (rest : List Char) : Option (List Char × List Char) :=
    readLong quote (rest.length + 1) ((lineEnd rest).getD rest)

/-! ### Keys -/

/-- A character of a key without quotes. -/
def isBare (c : Char) : Bool :=
  c.isAlphanum || c == '_' || c == '-'

/-- One part of a key. -/
def readKeyPart (text : List Char) : Option (String × List Char) :=
  match text with
  | '"' :: rest =>
    (readLine '"' (rest.length + 1) rest).map fun (cs, rest) => (String.ofList cs, rest)
  | '\'' :: rest =>
    (readLine '\'' (rest.length + 1) rest).map fun (cs, rest) => (String.ofList cs, rest)
  | text =>
    let bare := text.takeWhile isBare
    if bare.isEmpty then none else some (String.ofList bare, text.drop bare.length)

/-- A key: parts with points between them, and blanks anywhere around the parts. -/
def readKey : Nat → List Char → Option (List String × List Char)
  | 0, _ => none
  | fuel + 1, text => do
    let (part, rest) ← readKeyPart (skipBlanks text)
    match skipBlanks rest with
    | '.' :: rest =>
      let (parts, rest) ← readKey fuel rest
      return (part :: parts, rest)
    | rest => return ([part], rest)

/-- How deeply arrays and inline tables may be nested, and how many parts a key may have. -/
def depthLimit : Nat := 79

/-- A key as the path before its last part, and that part. -/
def readPath (text : List Char) : Option (List String × String × List Char) := do
  let (parts, rest) ← readKey (text.length + 1) text
  guard (parts.length ≤ depthLimit)
  return (parts.dropLast, ← parts.getLast?, rest)

/-! ### Values -/

/-- A character of a number, a date, a time or a truth value. -/
def isWord (c : Char) : Bool :=
  c.isAlphanum || c == '_' || c == '-' || c == '+' || c == '.' || c == ':'

section

variable {S : Type} [Numeral S]

/-- A value that is one word, or a date and a time with a blank between them. -/
def readWord (text : List Char) : Option (Json S × List Char) :=
  let word := text.takeWhile isWord
  let rest := text.drop word.length
  if word = ['t', 'r', 'u', 'e'] then some (.bool true, rest)
  else if word = ['f', 'a', 'l', 's', 'e'] then some (.bool false, rest)
  else
    let both := word ++ ' ' :: (rest.drop 1).takeWhile isWord
    if rest.head? = some ' ' ∧ isDateTime both then
      some (dateTimeDocument both, text.drop both.length)
    else if isDateTime word then some (dateTimeDocument word, rest)
    else (number? word).map fun j => (j, rest)

mutual

/-- A value, given how many levels of nesting are left. -/
def readValue : Nat → Nat → List Char → Option (Json S × List Char)
  | 0, _, _ => none
  | fuel + 1, depth, text =>
    match text with
    | '[' :: rest =>
      if depth = 0 then none
      else (readItems fuel (depth - 1) rest).map fun (items, rest) => (.array items, rest)
    | '\x7b' :: rest =>
      if depth = 0 then none
      else
        match skipBlanks rest with
        | '\x7d' :: rest => some (.object [], rest)
        | rest => do
          let (pairs, rest) ← readPairs fuel (depth - 1) rest
          return (← buildInline pairs, rest)
    | '"' :: _ | '\'' :: _ =>
      (readText text).map fun (cs, rest) => (.string (String.ofList cs), rest)
    | text => readWord text

/-- The items of an array up to its closing bracket. -/
def readItems : Nat → Nat → List Char → Option (List (Json S) × List Char)
  | 0, _, _ => none
  | fuel + 1, depth, text =>
    match skipLines (text.length + 1) text with
    | ']' :: rest => some ([], rest)
    | text => do
      let (item, rest) ← readValue fuel depth text
      match skipLines (rest.length + 1) rest with
      | ',' :: rest =>
        let (items, rest) ← readItems fuel depth rest
        return (item :: items, rest)
      | ']' :: rest => return ([item], rest)
      | _ => none

/-- The pairs of an inline table up to its closing brace, at least one. -/
def readPairs : Nat → Nat → List Char → Option (List (List String × String × Json S) × List Char)
  | 0, _, _ => none
  | fuel + 1, depth, text => do
    let (path, key, rest) ← readPath text
    match rest with
    | '=' :: rest =>
      let (value, rest) ← readValue fuel depth (skipBlanks rest)
      match skipBlanks rest with
      | ',' :: rest =>
        let (pairs, rest) ← readPairs fuel depth rest
        return ((path, key, value) :: pairs, rest)
      | '\x7d' :: rest => return ([(path, key, value)], rest)
      | _ => none
    | _ => none

end

/-! ### Statements -/

/-- One statement and the end of its line. -/
def readStatement (text : List Char) : Option (Statement S × List Char) :=
  match text with
  | '[' :: '[' :: rest => do
    let (path, key, rest) ← readPath rest
    match rest with
    | ']' :: ']' :: rest => return (.listHeader path key, ← endOfStatement rest)
    | _ => none
  | '[' :: rest => do
    let (path, key, rest) ← readPath rest
    match rest with
    | ']' :: rest => return (.header path key, ← endOfStatement rest)
    | _ => none
  | text => do
    let (path, key, rest) ← readPath text
    match rest with
    | '=' :: rest =>
      let rest := skipBlanks rest
      let (value, rest) ← readValue (2 * rest.length + 2) depthLimit rest
      return (.pair path key value, ← endOfStatement rest)
    | _ => none

/-- The statements of a text, at most `fuel` of them. -/
def readStatements : Nat → List Char → Option (List (Statement S))
  | 0, _ => none
  | fuel + 1, text =>
    match skipLines (text.length + 1) text with
    | [] => some []
    | text => do
      let (statement, rest) ← readStatement text
      return statement :: (← readStatements fuel rest)

/-- The document that a text denotes, if it denotes one. A byte order mark in front does
not count. -/
def read (text : String) : Option (Json S) :=
  let cs := text.toList
  let cs := if cs.head? = some (Char.ofNat 0xfeff) then cs.drop 1 else cs
  (readStatements (cs.length + 1) cs).bind build

end

end GraphReasoner.Toml
