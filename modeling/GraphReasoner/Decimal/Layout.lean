import GraphReasoner.Decimal.Shortest

/-!
# Laying out the digits of a number

The shortest digits of a double are a matter of arithmetic; where the point goes, whether an integer
keeps a `.0`, and from which size on an exponent is written are decisions of each format.
`GraphReasoner.Decimal.Layout` records those decisions, `GraphReasoner.Decimal.Layout.write` carries
them out, and each format declares its own record next to its printer. The record of plain messages,
`GraphReasoner.Decimal.plain`, is here: it never writes an exponent.

`GraphReasoner.Decimal.fixed` writes a fixed number of places instead, rounding the exact binary
value.
-/

namespace GraphReasoner.Decimal

/-- How a format writes the shortest digits of a number. -/
structure Layout where
  /-- Which of two equally near digit strings is written. -/
  tie : TieRule
  /-- Whether a number whose point comes after `n` digits is written without an exponent; `n` is
  negative when zeros follow the point. -/
  positional : Int → Bool
  /-- What follows a number without a fraction. -/
  integral : String
  /-- The text of a not-a-number. -/
  nan : String
  /-- The text of positive infinity. -/
  infinity : String

/-- The minus sign of a negative number, also of negative zero. -/
def sign (negative : Bool) : String :=
  if negative then "-" else ""

/-- A run of zeros. -/
def zeros (n : Int) : List Char :=
  List.replicate n.toNat '0'

/-- Digits without an exponent, the point after `point` of them. -/
def positionalText (integral : String) (digits : List Char) (power point : Int) : String :=
  if 0 ≤ power then String.ofList (digits ++ zeros power) ++ integral
  else if 0 < point then
    String.ofList (digits.take point.toNat ++ '.' :: digits.drop point.toNat)
  else String.ofList ('0' :: '.' :: zeros (-point) ++ digits)

/-- The text of an exponent: its sign, also a plus, and at least two digits. -/
def exponentPart (exponent : Int) : List Char :=
  let digits := Nat.toDigits 10 exponent.natAbs
  (if exponent < 0 then '-' else '+') :: List.replicate (2 - digits.length) '0' ++ digits

/-- Digits with an exponent, the point after the first of them. -/
def exponentText (digits : List Char) (point : Int) : String :=
  let mantissa := match digits with
    | d :: next :: rest => d :: '.' :: next :: rest
    | digits => digits
  String.ofList (mantissa ++ 'e' :: exponentPart (point - 1))

/-- The text of a number under a layout. -/
def Layout.write (layout : Layout) : Dyadic → String
  | .nan => layout.nan
  | .infinite negative => sign negative ++ layout.infinity
  | .finite negative m e =>
    if m = 0 then sign negative ++ "0" ++ layout.integral
    else
      let ⟨number, power⟩ := shortest layout.tie m e
      let digits := Nat.toDigits 10 number
      let point := (digits.length : Int) + power
      sign negative ++
        if layout.positional point then positionalText layout.integral digits power point
        else exponentText digits point

/-- Numbers in messages never carry an exponent, and an integer has no fraction. -/
def plain : Layout where
  tie := .up
  positional _ := true
  integral := ""
  nan := "NaN"
  infinity := "inf"

/-- A number with exactly `places` digits after the point. The exact binary value is rounded, a tie
going to the even last digit, and a negative number keeps its sign when it rounds to zero. -/
def fixed (places : Nat) : Dyadic → String
  | .nan => "NaN"
  | .infinite negative => sign negative ++ "inf"
  | .finite negative m e =>
    let scaled := Dyadic.roundHalfEven (m * tenTo places * twoTo e.toNat) (twoTo (-e).toNat)
    let digits := Nat.toDigits 10 scaled
    let digits := List.replicate (places + 1 - digits.length) '0' ++ digits
    let whole := digits.length - places
    sign negative ++ String.ofList
      (if places = 0 then digits else digits.take whole ++ '.' :: digits.drop whole)

end GraphReasoner.Decimal

namespace GraphReasoner.Numeral

variable {S : Type} [Numeral S]

/-- A number as messages show it. -/
def display (x : S) : String :=
  Decimal.plain.write (toDyadic x)

/-- A number with exactly `places` digits after the point. -/
def fixed (places : Nat) (x : S) : String :=
  Decimal.fixed places (toDyadic x)

end GraphReasoner.Numeral
