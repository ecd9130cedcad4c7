import GraphReasoner.Text.Blank
import GraphReasoner.Time.Instant

/-!
# The text of an instant

Instants are written in universal time as `2024-01-01T00:00:00Z`, with as many fraction digits as
needed out of 0, 3, 6 and 9, and with a sign when the year does not have four digits
(`GraphReasoner.Time.Instant.toText`).

Reading (`GraphReasoner.Time.Instant.ofText?`) is more generous than writing. Blanks may stand
before each number and each separator, months, days, hours, minutes and seconds may have one digit,
a year may be short or carry a sign and then any number of digits, and the offset may be given in
several ways. The date has to exist, and the second 60 denotes a leap second.
-/

namespace GraphReasoner.Time

open GraphReasoner.Text (isBlank)

/-! ### Writing -/

/-- A number with at least `width` digits. -/
def padded (width n : Nat) : String :=
  let digits := Nat.toDigits 10 n
  String.ofList (List.replicate (width - digits.length) '0' ++ digits)

/-- The text of a year: four digits, with a sign in front when they do not suffice. -/
def yearText (year : Int) : String :=
  if 0 ≤ year ∧ year ≤ 9999 then padded 4 year.toNat
  else (if year < 0 then "-" else "+") ++ padded 4 year.natAbs

/-- The text of a fraction of a second: none, or three, six or nine digits. -/
def fractionText (nanos : Nat) : String :=
  if nanos = 0 then ""
  else if nanos % 1000000 = 0 then "." ++ padded 3 (nanos / 1000000)
  else if nanos % 1000 = 0 then "." ++ padded 6 (nanos / 1000)
  else "." ++ padded 9 nanos

/-- The text of an instant, in universal time. -/
def Instant.toText (t : Instant) : String :=
  let date := Date.ofDays (t.seconds / Instant.daySeconds)
  let second := (t.seconds % Instant.daySeconds).toNat
  -- a leap second is written as the second 60
  let leap := t.nanos / Instant.nanosPerSecond
  yearText date.year ++ "-" ++ padded 2 date.month ++ "-" ++ padded 2 date.day ++ "T" ++
    padded 2 (second / 3600) ++ ":" ++ padded 2 (second / 60 % 60) ++ ":" ++
    padded 2 (second % 60 + leap) ++ fractionText (t.nanos % Instant.nanosPerSecond) ++ "Z"

/-! ### Reading -/

namespace Reading

/-- The value of a list of decimal digits. -/
def digitsValue (digits : List Char) : Nat :=
  digits.foldl (fun n c => 10 * n + (c.toNat - '0'.toNat)) 0

/-- The text without the blanks in front. -/
def skipBlanks (text : List Char) : List Char :=
  text.dropWhile isBlank

/-- A number of one digit at least and of `most` digits at most, if a most is given. -/
def number (most : Option Nat) (text : List Char) : Option (Nat × List Char) :=
  let digits := text.takeWhile Char.isDigit
  let digits := match most with
    | some n => digits.take n
    | none => digits
  if digits.isEmpty then none else some (digitsValue digits, text.drop digits.length)

/-- A number of one or two digits, blanks in front. -/
def twoDigits (text : List Char) : Option (Nat × List Char) :=
  number (some 2) (skipBlanks text)

/-- A year: four digits at most, or a sign and any number of digits. -/
def year (text : List Char) : Option (Int × List Char) :=
  match skipBlanks text with
  | '-' :: rest => (number none rest).map fun (n, rest) => (-(n : Int), rest)
  | '+' :: rest => (number none rest).map fun (n, rest) => ((n : Int), rest)
  | text => (number (some 4) text).map fun (n, rest) => ((n : Int), rest)

/-- A separator, blanks in front. -/
def separator (c : Char) (text : List Char) : Option (List Char) :=
  match skipBlanks text with
  | d :: rest => if d = c then some rest else none
  | [] => none

/-- The fraction of a second in nanoseconds. Digits after the ninth are passed over. -/
def fraction : List Char → Option (Nat × List Char)
  | '.' :: rest => do
    let (value, _) ← number (some 9) rest
    let digits := rest.takeWhile Char.isDigit
    return (value * Nat.pow 10 (9 - min 9 digits.length), rest.drop digits.length)
  | text => some (0, text)

/-- Two digits, no fewer. -/
def exactlyTwo : List Char → Option (Nat × List Char)
  | c :: d :: rest => if c.isDigit && d.isDigit then some (digitsValue [c, d], rest) else none
  | _ => none

/-- Hours and minutes after the sign of an offset, in seconds. Colons and blanks may part them. -/
def offsetSize (text : List Char) : Option (Nat × List Char) := do
  let (hours, rest) ← exactlyTwo text
  let (minutes, rest) ← exactlyTwo (rest.dropWhile fun c => c == ':' || isBlank c)
  guard (minutes < 60)
  return (hours * 3600 + minutes * 60, rest)

/-- The offset from universal time, in seconds. -/
def offset (text : List Char) : Option (Int × List Char) :=
  match text with
  | 'Z' :: rest | 'z' :: rest => some (0, rest)
  | '+' :: rest => (offsetSize rest).map fun (n, rest) => ((n : Int), rest)
  | '-' :: rest | '−' :: rest => (offsetSize rest).map fun (n, rest) => (-(n : Int), rest)
  | u :: t :: c :: rest =>
    if [u, t, c].map Char.toUpper == ['U', 'T', 'C'] then some (0, rest) else none
  | _ => none

/-- What stands between the date and the time. -/
def dateTimeSeparator : List Char → Option (List Char)
  | 'T' :: rest | 't' :: rest | ' ' :: rest => some rest
  | _ => none

end Reading

open Reading in
/-- The instant that a text denotes, if it denotes one. -/
def Instant.ofText? (text : String) : Option Instant := do
  let (y, rest) ← year text.toList
  let rest ← separator '-' rest
  let (month, rest) ← twoDigits rest
  let rest ← separator '-' rest
  let (day, rest) ← twoDigits rest
  let rest ← dateTimeSeparator rest
  let (hour, rest) ← twoDigits rest
  let rest ← separator ':' rest
  let (minute, rest) ← twoDigits rest
  let rest ← separator ':' rest
  let (second, rest) ← twoDigits rest
  let (nanos, rest) ← fraction rest
  let (shift, rest) ← offset (skipBlanks rest)
  guard (skipBlanks rest).isEmpty
  guard (Instant.firstYear ≤ y ∧ y ≤ Instant.lastYear)
  let date : Date := ⟨y, month, day⟩
  guard date.IsValid
  guard (hour < 24 ∧ minute < 60 ∧ second ≤ 60 ∧ shift.natAbs < Instant.daySeconds.natAbs)
  let leap := if second = 60 then 1 else 0
  let secondOfDay := hour * 3600 + minute * 60 + (second - leap)
  let wallClock := date.toDays * Instant.daySeconds + (secondOfDay : Nat)
  guard (Instant.inRange (wallClock - shift))
  return ⟨wallClock - shift, nanos + leap * Instant.nanosPerSecond⟩

end GraphReasoner.Time
