import GraphReasoner.Json.Basic

/-!
# Reading JSON

The reader follows the grammar of JSON to the letter. A number without a fraction and an exponent is
an integer when it lies between −2⁶³ and 2⁶⁴ − 1, except that `-0` is the negative zero; every other
number is the nearest double. Values nested deeper than 127 arrays and objects, numbers past the
largest double and lone surrogates are read as `GraphReasoner.Json.unreadable`.

Recursion is bounded by the length of the text: every value takes at least one character.

* `GraphReasoner.Json.read` – a whole text as one document.
-/

namespace GraphReasoner.Json

/-- The four characters that may stand between the parts of a document. -/
def isSpace (c : Char) : Bool :=
  c == ' ' || c == '\n' || c == '\t' || c == '\r'

/-- The text without the spaces in front. -/
def skipSpaces (text : List Char) : List Char :=
  text.dropWhile isSpace

/-! ### Numbers -/

/-- The value of a list of decimal digits. -/
def digitsValue (digits : List Char) : Nat :=
  digits.foldl (fun n c => 10 * n + (c.toNat - '0'.toNat)) 0

/-- The digits in front of a text, at least one. -/
def digits (text : List Char) : Option (List Char × List Char) :=
  match text.takeWhile Char.isDigit with
  | [] => none
  | ds => some (ds, text.dropWhile Char.isDigit)

/-- The digits before the point: no zero in front of another digit. -/
def wholePart (text : List Char) : Option (List Char × List Char) := do
  let (ds, rest) ← digits text
  guard (ds.length = 1 || ds.head? != some '0')
  return (ds, rest)

/-- The digits after the point, if there is one. -/
def fractionPart : List Char → Option (List Char × List Char)
  | '.' :: rest => digits rest
  | text => some ([], text)

/-- The exponent, if there is one. -/
def exponentPart : List Char → Option (Option Int × List Char)
  | c :: rest =>
    if c == 'e' || c == 'E' then
      match rest with
      | '-' :: rest => (digits rest).map fun (ds, rest) => (some (-(digitsValue ds : Int)), rest)
      | '+' :: rest => (digits rest).map fun (ds, rest) => (some (digitsValue ds : Int), rest)
      | rest => (digits rest).map fun (ds, rest) => (some (digitsValue ds : Int), rest)
    else some (none, c :: rest)
  | [] => some (none, [])

/-- The least integer that is kept as one. -/
def leastInteger : Int := -9223372036854775808

/-- The greatest integer that is kept as one. -/
def greatestInteger : Int := 18446744073709551615

section

variable {S : Type} [Numeral S]

/-- The double nearest to a decimal, unless it is past the largest one. -/
def nearest (negative : Bool) (number : Nat) (power : Int) : Json S :=
  match Dyadic.ofDecimal negative number power with
  | .infinite _ => unreadable
  | d => float (Numeral.ofDyadic d)

/-- A number after its sign. -/
def readNumber (negative : Bool) (text : List Char) : Option (Json S × List Char) := do
  let (whole, rest) ← wholePart text
  let (fraction, rest) ← fractionPart rest
  let (exponent, rest) ← exponentPart rest
  let number := digitsValue (whole ++ fraction)
  let value : Int := if negative then -number else number
  let isInteger := fraction.isEmpty && exponent.isNone && !(negative && number == 0) &&
    leastInteger ≤ value && value ≤ greatestInteger
  return (if isInteger then int value
    else nearest negative number (exponent.getD 0 - fraction.length), rest)

/-! ### Texts -/

/-- Four hexadecimal digits. -/
def readHex : List Char → Option (Nat × List Char)
  | a :: b :: c :: d :: rest => do
    let a ← hexValue a
    let b ← hexValue b
    let c ← hexValue c
    let d ← hexValue d
    return (4096 * a + 256 * b + 16 * c + d, rest)
  | _ => none
where
  /-- The value of a hexadecimal digit. -/
  hexValue (c : Char) : Option Nat :=
    if c.isDigit then some (c.toNat - '0'.toNat)
    else if 'a' ≤ c ∧ c ≤ 'f' then some (c.toNat - 'a'.toNat + 10)
    else if 'A' ≤ c ∧ c ≤ 'F' then some (c.toNat - 'A'.toNat + 10)
    else none

/-- The character of an escape of one letter. -/
def simpleEscape (c : Char) : Option Char :=
  match c with
  | '"' => some '"'
  | '\\' => some '\\'
  | '/' => some '/'
  | 'b' => some (Char.ofNat 8)
  | 'f' => some (Char.ofNat 12)
  | 'n' => some '\n'
  | 'r' => some '\r'
  | 't' => some '\t'
  | _ => none

/-- A character given by its number in hexadecimal, or by two surrogates; the inner `none` is a lone
surrogate, which is well formed but no character. -/
def readUnicode (text : List Char) : Option (Option Char × List Char) := do
  let (high, rest) ← readHex text
  if 0xd800 ≤ high && high < 0xdc00 then
    match rest with
    | '\\' :: 'u' :: rest' =>
      let (low, rest'') ← readHex rest'
      if 0xdc00 ≤ low && low < 0xe000 then
        return (some (Char.ofNat (0x10000 + 1024 * (high - 0xd800) + (low - 0xdc00))), rest'')
      else return (none, rest'')
    | _ => return (none, rest)
  else if 0xdc00 ≤ high && high < 0xe000 then return (none, rest)
  else return (some (Char.ofNat high), rest)

/-- The rest of a quoted text, given the characters read so far in reverse. The inner `none` is a
text that holds a lone surrogate. -/
def readQuoted : Nat → Option (List Char) → List Char → Option (Option String × List Char)
  | 0, _, _ => none
  | fuel + 1, sofar, text =>
    match text with
    | [] => none
    | '"' :: rest => some (sofar.map fun cs => String.ofList cs.reverse, rest)
    | '\\' :: 'u' :: rest =>
      match readUnicode rest with
      | none => none
      | some (none, rest) => readQuoted fuel none rest
      | some (some c, rest) => readQuoted fuel (sofar.map (c :: ·)) rest
    | '\\' :: e :: rest =>
      match simpleEscape e with
      | none => none
      | some c => readQuoted fuel (sofar.map (c :: ·)) rest
    | c :: rest =>
      if c.toNat < 32 || c == '\\' then none else readQuoted fuel (sofar.map (c :: ·)) rest

/-- A quoted text after its opening quote. -/
def readText (text : List Char) : Option (Option String × List Char) :=
  readQuoted (text.length + 1) (some []) text

/-! ### Documents -/

/-- How deeply arrays and objects may be nested. -/
def depthLimit : Nat := 127

/-- The object of some fields, which cannot be held when a name cannot. -/
def objectOf (fields : List (Option String × Json S)) : Json S :=
  match fields.mapM fun field => field.1.map fun name => (name, field.2) with
  | some fields => object fields
  | none => unreadable

mutual

/-- A value, given how many levels of nesting are left. -/
def readValue : Nat → Nat → List Char → Option (Json S × List Char)
  | 0, _, _ => none
  | fuel + 1, depth, text =>
    match skipSpaces text with
    | 'n' :: 'u' :: 'l' :: 'l' :: rest => some (null, rest)
    | 't' :: 'r' :: 'u' :: 'e' :: rest => some (bool true, rest)
    | 'f' :: 'a' :: 'l' :: 's' :: 'e' :: rest => some (bool false, rest)
    | '"' :: rest => (readText rest).map fun (t, rest) => (t.elim unreadable Json.string, rest)
    | '-' :: rest => readNumber true rest
    | '[' :: rest =>
      match skipSpaces rest with
      | ']' :: rest => some (if depth = 0 then unreadable else array [], rest)
      | rest =>
        (readItems fuel (depth - 1) rest).map fun (items, rest) =>
          (if depth = 0 then unreadable else array items, rest)
    | '\x7b' :: rest =>
      match skipSpaces rest with
      | '\x7d' :: rest => some (if depth = 0 then unreadable else object [], rest)
      | rest =>
        (readFields fuel (depth - 1) rest).map fun (fields, rest) =>
          (if depth = 0 then unreadable else objectOf fields, rest)
    | rest => readNumber false rest

/-- The items of an array up to its closing bracket, at least one. -/
def readItems : Nat → Nat → List Char → Option (List (Json S) × List Char)
  | 0, _, _ => none
  | fuel + 1, depth, text => do
    let (item, rest) ← readValue fuel depth text
    match skipSpaces rest with
    | ',' :: rest =>
      let (items, rest) ← readItems fuel depth rest
      return (item :: items, rest)
    | ']' :: rest => return ([item], rest)
    | _ => none

/-- The fields of an object up to its closing brace, at least one. -/
def readFields : Nat → Nat → List Char → Option (List (Option String × Json S) × List Char)
  | 0, _, _ => none
  | fuel + 1, depth, text =>
    match skipSpaces text with
    | '"' :: rest => do
      let (name, rest) ← readText rest
      match skipSpaces rest with
      | ':' :: rest =>
        let (value, rest) ← readValue fuel depth rest
        match skipSpaces rest with
        | ',' :: rest =>
          let (fields, rest) ← readFields fuel depth rest
          return ((name, value) :: fields, rest)
        | '\x7d' :: rest => return ([(name, value)], rest)
        | _ => none
      | _ => none
    | _ => none

end

/-- The document that a text denotes, if it denotes one. -/
def read (text : String) : Option (Json S) := do
  let cs := text.toList
  let (document, rest) ← readValue (2 * cs.length + 2) depthLimit cs
  guard (skipSpaces rest).isEmpty
  return document

end

end GraphReasoner.Json
