import GraphReasoner.Json.Basic
import GraphReasoner.Time.Calendar

/-!
# Numbers and times in TOML

A value that begins with a digit, a sign, or one of the words `inf` and `nan` is an integer, a
number, or a date or time. It is read as one word: no character that can follow a value can stand
inside one. Digits may be grouped by single underscores.

* `GraphReasoner.Toml.number?` – the document of such a word. An integer has to fit 64 bits with
  sign; a number too large to be a double is refused when it is positive;
* `GraphReasoner.Toml.isDateTime` – whether a word is a date, a time, or both. Dates and times have
  no counterpart in a document; they become an object under a name no field has.
-/

namespace GraphReasoner.Toml

/-! ### Digits -/

/-- Removes the underscores between digits: none may stand at an end or beside another. -/
def ungroup (digit : Char → Bool) (word : List Char) : Option (List Char) :=
  let groups := (word.splitOn '_')
  if groups.all fun g => !g.isEmpty && g.all digit then some groups.flatten else none

/-- The value of digits in a base. -/
def valueIn (base : Nat) (digits : List Char) : Nat :=
  digits.foldl (fun n c =>
    base * n + (if c.isDigit then c.toNat - '0'.toNat else c.toLower.toNat - 'a'.toNat + 10)) 0

/-- Whether a character is a hexadecimal digit. -/
def isHexDigit (c : Char) : Bool :=
  c.isDigit || ('a' ≤ c && c ≤ 'f') || ('A' ≤ c && c ≤ 'F')

/-- Whether a character is a digit below a base of at most ten. -/
def isDigitBelow (base : Nat) (c : Char) : Bool :=
  c.isDigit && c.toNat - '0'.toNat < base

/-- A sign and the rest of a word. -/
def splitSign : List Char → Bool × List Char
  | '-' :: rest => (true, rest)
  | '+' :: rest => (false, rest)
  | word => (false, word)

/-- Decimal digits without a needless zero in front. -/
def wholeDigits (word : List Char) : Option (List Char) := do
  let digits ← ungroup Char.isDigit word
  guard (digits.length = 1 || digits.head? != some '0')
  return digits

/-! ### Dates and times -/

/-- Exactly `n` digits with a value in a range. -/
def fixedDigits (n least greatest : Nat) (word : List Char) : Option (Nat × List Char) :=
  let digits := word.take n
  let value := valueIn 10 digits
  if digits.length = n ∧ digits.all Char.isDigit ∧ least ≤ value ∧ value ≤ greatest then
    some (value, word.drop n)
  else none

/-- A given character. -/
def expect (c : Char) : List Char → Option (List Char)
  | d :: rest => if d = c then some rest else none
  | [] => none

/-- A date that the calendar has. -/
def date (word : List Char) : Option (List Char) := do
  let (year, rest) ← fixedDigits 4 0 9999 word
  let (month, rest) ← fixedDigits 2 1 12 (← expect '-' rest)
  let (day, rest) ← fixedDigits 2 1 31 (← expect '-' rest)
  guard (day ≤ Time.daysInMonth year month)
  return rest

/-- A time of day, perhaps with a fraction. -/
def time (word : List Char) : Option (List Char) := do
  let (_, rest) ← fixedDigits 2 0 23 word
  let (_, rest) ← fixedDigits 2 0 59 (← expect ':' rest)
  let (_, rest) ← fixedDigits 2 0 60 (← expect ':' rest)
  match rest with
  | '.' :: c :: rest => if c.isDigit then some (rest.dropWhile Char.isDigit) else none
  | rest => some rest

/-- An offset from universal time, or none. -/
def zone : List Char → Option (List Char)
  | [] => some []
  | 'Z' :: rest | 'z' :: rest => some rest
  | sign :: rest => do
    guard (sign == '+' || sign == '-')
    let (_, rest) ← fixedDigits 2 0 23 rest
    let (_, rest) ← fixedDigits 2 0 59 (← expect ':' rest)
    return rest

/-- A date, perhaps followed by a time and an offset, or a time alone. -/
def dateTime (word : List Char) : Option (List Char) :=
  match date word with
  | some (c :: rest) =>
    if c == 'T' || c == 't' || c == ' ' then (time rest).bind zone else none
  | some [] => some []
  | none => time word

/-- Whether a word is a date, a time, or both. -/
def isDateTime (word : List Char) : Bool :=
  dateTime word == some []

/-! ### Words -/

section

variable {S : Type} [Numeral S]

/-- A decimal number with a fraction or an exponent, after its sign. -/
def decimal? (negative : Bool) (word : List Char) : Option (Json S) := do
  let mantissa := word.takeWhile fun c => c != 'e' && c != 'E'
  let whole ← wholeDigits (mantissa.takeWhile (· != '.'))
  let fraction ← match mantissa.dropWhile (· != '.') with
    | '.' :: rest => ungroup Char.isDigit rest
    | _ => some []
  let exponent : Int ← match word.drop mantissa.length with
    | _ :: rest =>
      let (negative, digits) := splitSign rest
      (ungroup Char.isDigit digits).map fun ds =>
        if negative then -(valueIn 10 ds : Int) else (valueIn 10 ds : Int)
    | [] => some 0
  let d := Dyadic.ofDecimal negative (valueIn 10 (whole ++ fraction)) (exponent - fraction.length)
  guard (d ≠ .infinite false)
  return .float (Numeral.ofDyadic d)

/-- An integer of at most 64 bits with sign. -/
def integer? (i : Int) : Option (Json S) :=
  if -9223372036854775808 ≤ i ∧ i ≤ 9223372036854775807 then some (.int i) else none

/-- The number that a word denotes. -/
def number? (word : List Char) : Option (Json S) :=
  match word with
  | '0' :: 'x' :: rest => (ungroup isHexDigit rest).bind fun ds => integer? (valueIn 16 ds)
  | '0' :: 'o' :: rest => (ungroup (isDigitBelow 8) rest).bind fun ds => integer? (valueIn 8 ds)
  | '0' :: 'b' :: rest => (ungroup (isDigitBelow 2) rest).bind fun ds => integer? (valueIn 2 ds)
  | word =>
    let (negative, digits) := splitSign word
    if digits = ['i', 'n', 'f'] then some (.float (Numeral.ofDyadic (.infinite negative)))
    else if digits = ['n', 'a', 'n'] then some (.float (Numeral.ofDyadic .nan))
    else match wholeDigits digits with
      | some ds => integer? (if negative then -(valueIn 10 ds : Int) else (valueIn 10 ds : Int))
      | none =>
        if digits.any fun c => c == '.' || c == 'e' || c == 'E' then decimal? negative digits
        else none

/-- The document of a date or time: an object under a name that no field has. -/
def dateTimeDocument (word : List Char) : Json S :=
  .object [("$__toml_private_datetime", .string (String.ofList word))]

end

end GraphReasoner.Toml
