import GraphReasoner.Scalar

/-!
# Binary floating-point numbers as dyadic fractions

A double is a sign, a mantissa and a power of two. `GraphReasoner.Dyadic` says so in plain integers,
and every text of a number is computed from that form by exact integer arithmetic: nothing in the
decimal modules touches a floating-point operation.

* `GraphReasoner.Dyadic.ofDecimal` – the double nearest to `d · 10 ^ p`, ties to the even mantissa;
* `GraphReasoner.Numeral` – a scalar that can be taken apart into its dyadic form and put together
  again, with `Float` as the instance the program runs on.
-/

namespace GraphReasoner

/-- A power of two. -/
def twoTo (n : Nat) : Nat :=
  Nat.pow 2 n

/-- A power of ten. -/
def tenTo (n : Nat) : Nat :=
  Nat.pow 10 n

/-- A double: not a number, an infinity, or `± mantissa · 2 ^ exponent`. -/
inductive Dyadic
  | nan
  | infinite (negative : Bool)
  | finite (negative : Bool) (mantissa : Nat) (exponent : Int)
deriving DecidableEq, Repr, Inhabited

namespace Dyadic

/-- The number of bits of a mantissa. -/
def precision : Nat := 53

/-- The least exponent, that of the subnormal numbers. -/
def leastExponent : Int := -1074

/-- The greatest exponent of a full mantissa. -/
def greatestExponent : Int := 971

/-- The integer nearest to `num / den`, a tie going to the even one. -/
def roundHalfEven (num den : Nat) : Nat :=
  let quotient := num / den
  let rest := 2 * (num % den)
  if rest < den then quotient
  else if den < rest then quotient + 1
  else quotient + quotient % 2

/-- The double nearest to `num / den`, a tie going to the even mantissa. The exponent is chosen so
that the mantissa is full, unless that would pass the least one. -/
def ofRatio (negative : Bool) (num den : Nat) : Dyadic :=
  if num = 0 then .finite negative 0 leastExponent else
  -- the quotient has `size` or `size + 1` bits before the point
  let size : Int := (Nat.log2 num : Int) - (Nat.log2 den : Int)
  let guess := max leastExponent (size - precision)
  let mantissaAt (e : Int) : Nat := roundHalfEven (num * twoTo (-e).toNat) (den * twoTo e.toNat)
  let e := if mantissaAt guess < twoTo precision then guess else guess + 1
  let mantissa := mantissaAt e
  let (mantissa, e) := if mantissa < twoTo precision then (mantissa, e) else (mantissa / 2, e + 1)
  if e > greatestExponent then .infinite negative else .finite negative mantissa e

/-- The double nearest to `digits · 10 ^ power`. Far outside the range the answer is known without
computing the power of ten. -/
def ofDecimal (negative : Bool) (digits : Nat) (power : Int) : Dyadic :=
  if digits = 0 then .finite negative 0 leastExponent
  else if power > 400 then .infinite negative
  else if power + (Nat.log2 digits : Int) < -1200 then .finite negative 0 leastExponent
  else ofRatio negative (digits * tenTo power.toNat) (tenTo (-power).toNat)

/-- Whether the number is an integer. -/
def isIntegral : Dyadic → Bool
  | .nan | .infinite _ => false
  | .finite _ m e => m % twoTo (-e).toNat == 0

/-- The leading one of a full mantissa, which the bits leave out. -/
def leadingBit : Nat := twoTo (precision - 1)

/-- The 64 bits of a double: sign, biased exponent, mantissa without its leading one. -/
def toBits : Dyadic → UInt64
  | .nan => 0x7ff8000000000000
  | .infinite negative => signBit negative ||| 0x7ff0000000000000
  | .finite negative m e =>
    if m < leadingBit then signBit negative ||| m.toUInt64
    else signBit negative ||| (((e + 1075).toNat.toUInt64 <<< 52) ||| (m - leadingBit).toUInt64)
where
  /-- The topmost bit, set for a negative number. -/
  signBit (negative : Bool) : UInt64 :=
    if negative then 0x8000000000000000 else 0

/-- Reads the 64 bits of a double. -/
def ofBits (bits : UInt64) : Dyadic :=
  let negative := bits >>> 63 != 0
  let biased := ((bits >>> 52) &&& 0x7ff).toNat
  let fraction := (bits &&& 0xfffffffffffff).toNat
  if biased = 0x7ff then if fraction = 0 then .infinite negative else .nan
  else if biased = 0 then .finite negative fraction leastExponent
  else .finite negative (fraction + leadingBit) (biased - 1075)

end Dyadic

/-- A scalar with a dyadic form, from which its texts are made. -/
class Numeral (S : Type) extends Scalar S where
  /-- Takes a number apart. -/
  toDyadic : S → Dyadic
  /-- Puts a number together. -/
  ofDyadic : Dyadic → S

instance : Scalar Float where
  natCast n := Float.ofBits (Dyadic.ofDecimal false n 0).toBits
  intCast i := Float.ofBits (Dyadic.ofDecimal (i < 0) i.natAbs 0).toBits
  decLt := fun x y => inferInstanceAs (Decidable (x < y))
  decLe := fun x y => inferInstanceAs (Decidable (x ≤ y))
  root n x := Float.pow x (1.0 / Float.ofBits (Dyadic.ofDecimal false n 0).toBits)
  log := Float.log
  sqrt := Float.sqrt

instance : Numeral Float where
  toDyadic x := Dyadic.ofBits x.toBits
  ofDyadic d := Float.ofBits d.toBits

end GraphReasoner
