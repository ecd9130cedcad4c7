import GraphReasoner.Decimal.Layout
import GraphReasoner.Toml.Reader

/-!
# Writing TOML

Settings are written as pairs of keys and simple values, first those that stand alone and then one
section after another under its header. A float always has a point and never an exponent; an integer
has to fit a signed word of 64 bits.

A text is written in the quietest quotes that can hold it. Double quotes come first, as long as
nothing has to be escaped in them; then single quotes, in which nothing can be escaped; then three
double quotes, which may hold up to two of their kind in a row; then three single quotes. A text
that none of them can hold is written in double quotes with escapes. Three quotes begin a new line
when the text has line breaks.

* `GraphReasoner.Toml.quotesFor` – the quotes of a text;
* `GraphReasoner.Toml.quote` – a text in quotes;
* `GraphReasoner.Toml.write?` – a document of pairs and sections.
-/

namespace GraphReasoner.Toml

/-! ### Texts -/

/-- The kinds of quotes. -/
inductive Quotes
  /-- Double quotes, with escapes. -/
  | basic
  /-- Single quotes, without escapes. -/
  | literal
  /-- Three double quotes, with escapes. -/
  | longBasic
  /-- Three single quotes, without escapes. -/
  | longLiteral
deriving DecidableEq, Repr, Inhabited

/-- The length of the longest run of a character. The first number is that of the run that is
open. -/
def longestRun (q : Char) (run longest : Nat) : List Char → Nat
  | [] => max run longest
  | c :: text =>
    if c = q then longestRun q (run + 1) longest text else longestRun q 0 (max run longest) text

/-- Whether a text holds a control character, which has to be escaped in all quotes. A line break is
none. -/
def needsEscapes (text : List Char) : Bool :=
  text.any fun c => isControl c && c != '\n'

/-- The quotes of a text. -/
def quotesFor (text : List Char) : Quotes :=
  let broken := text.contains '\n'
  let singles := longestRun '\'' 0 0 text
  let doubles := longestRun '"' 0 0 text
  if needsEscapes text then if broken then .longBasic else .basic
  else if !text.contains '\\' && doubles = 0 && !broken then .basic
  else if singles = 0 && !broken then .literal
  else if !text.contains '\\' && doubles ≤ 2 then .longBasic
  else if singles ≤ 2 then .longLiteral
  else if broken then .longBasic
  else .basic

/-- A character other than the double quote as quotes with escapes hold it; three of them hold line
breaks as they are. -/
def escape (long : Bool) (c : Char) : List Char :=
  match c with
  | '\\' => ['\\', '\\']
  | '\t' => ['\\', 't']
  | '\r' => ['\\', 'r']
  | '\n' => if long then ['\n'] else ['\\', 'n']
  | c =>
    if c.toNat = 8 then ['\\', 'b']
    else if c.toNat = 12 then ['\\', 'f']
    else if isControl c then
      let digit (n : Nat) : Char := (Nat.digitChar n).toUpper
      ['\\', 'u', '0', '0', digit (c.toNat / 16), digit (c.toNat % 16)]
    else [c]

/-- A text as quotes with escapes hold it, given how many double quotes stand right before it. Three
quotes hold two of them in a row and escape the next, a single one escapes all. -/
def escapeAll (long : Bool) (doubles : Nat) : List Char → List Char
  | [] => []
  | c :: text =>
    if c = '"' then
      if doubles < (if long then 2 else 0) then c :: escapeAll long (doubles + 1) text
      else '\\' :: c :: escapeAll long 0 text
    else escape long c ++ escapeAll long 0 text

/-- A text in quotes. -/
def quote (text : String) : String :=
  let chars := text.toList
  let opening := if chars.contains '\n' then "\n" else ""
  match quotesFor chars with
  | .basic => "\"" ++ String.ofList (escapeAll false 0 chars) ++ "\""
  | .literal => "'" ++ text ++ "'"
  | .longBasic => "\"\"\"" ++ opening ++ String.ofList (escapeAll true 0 chars) ++ "\"\"\""
  | .longLiteral => "'''" ++ opening ++ text ++ "'''"

/-! ### Documents -/

/-- The layout of floats. -/
def numberLayout : Decimal.Layout where
  tie := .up
  positional _ := true
  integral := ".0"
  nan := "nan"
  infinity := "inf"

/-- The greatest integer. -/
def greatestInteger : Int := 9223372036854775807

variable {S : Type} [Numeral S]

/-- A simple value. -/
def value? : Json S → Option String
  | .bool b => some (if b then "true" else "false")
  | .int i => if i ≤ greatestInteger then some (toString i) else none
  | .float x => some (numberLayout.write (Numeral.toDyadic x))
  | .string s => some (quote s)
  | _ => none

/-- A pair on a line of its own. -/
def pair? (entry : String × Json S) : Option String :=
  (value? entry.2).map fun value => entry.1 ++ " = " ++ value ++ "\n"

/-- Whether a field is a section. -/
def isSection : String × Json S → Bool
  | (_, .object _) => true
  | _ => false

/-- A section under its header. -/
def section? : String × Json S → Option String
  | (name, .object entries) => do
    return "[" ++ name ++ "]\n" ++ String.join (← entries.mapM pair?)
  | _ => none

/-- A document of pairs and sections. Parts are set off by an empty line. -/
def write? : Json S → Option String
  | .object fields => do
    let single ← (fields.filter fun f => !isSection f).mapM pair?
    let sections ← (fields.filter isSection).mapM section?
    let parts := if single.isEmpty then sections else String.join single :: sections
    return String.intercalate "\n" parts
  | _ => none

end GraphReasoner.Toml
