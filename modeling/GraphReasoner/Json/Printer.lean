import GraphReasoner.Decimal.Layout
import GraphReasoner.Json.Basic

/-!
# Writing JSON

A document is written either on one line without any blank (`GraphReasoner.Json.compact`) or
indented by two blanks a level (`GraphReasoner.Json.pretty`). Both write the fields of an object in
their order.

A number that is no integer is written with its shortest digits and always looks like one: `1.0`,
never `1`. Exponents begin at `1e16` and below `0.00001`. What is not a finite number is written as
`null`.
-/

namespace GraphReasoner.Json

/-- The layout of numbers. -/
def numberLayout : Decimal.Layout where
  tie := .toEven
  positional point := -5 < point && point ≤ 16
  integral := ".0"
  nan := "null"
  infinity := "null"

/-- The text of a number. -/
def numberText {S : Type} [Numeral S] (x : S) : String :=
  match Numeral.toDyadic x with
  | .nan | .infinite _ => "null"
  | d => numberLayout.write d

/-- A character inside a quoted text: quotes, backslashes and control characters are escaped. -/
def escape (c : Char) : List Char :=
  match c with
  | '"' => ['\\', '"']
  | '\\' => ['\\', '\\']
  | '\n' => ['\\', 'n']
  | '\r' => ['\\', 'r']
  | '\t' => ['\\', 't']
  | c =>
    if c.toNat = 8 then ['\\', 'b']
    else if c.toNat = 12 then ['\\', 'f']
    else if c.toNat < 32 then
      ['\\', 'u', '0', '0', Nat.digitChar (c.toNat / 16), Nat.digitChar (c.toNat % 16)]
    else [c]

/-- A text in quotes. -/
def quote (text : String) : String :=
  String.ofList ('"' :: text.toList.flatMap escape ++ ['"'])

variable {S : Type} [Numeral S]

mutual

/-- A document on one line. -/
def compact : Json S → String
  | null | unreadable => "null"
  | bool b => if b then "true" else "false"
  | int i => toString i
  | float x => numberText x
  | string s => quote s
  | array items => "[" ++ compactItems items ++ "]"
  | object fields => "\x7b" ++ compactFields fields ++ "\x7d"

/-- Items on one line, with commas between them. -/
def compactItems : List (Json S) → String
  | [] => ""
  | [item] => compact item
  | item :: items => compact item ++ "," ++ compactItems items

/-- Fields on one line, with commas between them. -/
def compactFields : List (String × Json S) → String
  | [] => ""
  | [(name, value)] => quote name ++ ":" ++ compact value
  | (name, value) :: fields => quote name ++ ":" ++ compact value ++ "," ++ compactFields fields

end

/-- A new line at a level of indentation. -/
def newLine (level : Nat) : String :=
  String.ofList ('\n' :: List.replicate (2 * level) ' ')

mutual

/-- A document with one item or field a line, at a level of indentation. -/
def prettyAt (level : Nat) : Json S → String
  | null | unreadable => "null"
  | bool b => if b then "true" else "false"
  | int i => toString i
  | float x => numberText x
  | string s => quote s
  | array items =>
    if items.isEmpty then "[]"
    else "[" ++ prettyItems (level + 1) items ++ newLine level ++ "]"
  | object fields =>
    if fields.isEmpty then "\x7b\x7d"
    else "\x7b" ++ prettyFields (level + 1) fields ++ newLine level ++ "\x7d"

/-- Items on lines of their own. -/
def prettyItems (level : Nat) : List (Json S) → String
  | [] => ""
  | [item] => newLine level ++ prettyAt level item
  | item :: items => newLine level ++ prettyAt level item ++ "," ++ prettyItems level items

/-- Fields on lines of their own. -/
def prettyFields (level : Nat) : List (String × Json S) → String
  | [] => ""
  | [(name, value)] => newLine level ++ quote name ++ ": " ++ prettyAt level value
  | (name, value) :: fields =>
    newLine level ++ quote name ++ ": " ++ prettyAt level value ++ "," ++ prettyFields level fields

end

/-- A document with one item or field a line. -/
def pretty (document : Json S) : String :=
  prettyAt 0 document

end GraphReasoner.Json
