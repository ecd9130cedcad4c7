import GraphReasoner.Proofs.Json.Number

/-!
# Numbers in halves

The laws of the reasoner are stated over any numbers. The least that deserve the name are the five
from zero to two in steps of a half, with an arithmetic that rounds down and stops at two. They are
taken apart as doubles are, and on them everything can be evaluated; in particular what is printed
is read (`GraphReasoner.Halves.rereads`).
-/

namespace GraphReasoner

/-- A number from zero to two in steps of a half. -/
inductive Halves
  | zero
  | half
  | one
  | oneAndHalf
  | two
deriving DecidableEq

namespace Halves

/-- How many halves a number is. -/
def count : Halves → Nat
  | zero => 0
  | half => 1
  | one => 2
  | oneAndHalf => 3
  | two => 4

/-- So many halves, at most four. -/
def ofCount : Nat → Halves
  | 0 => zero
  | 1 => half
  | 2 => one
  | 3 => oneAndHalf
  | _ => two

instance : Scalar Halves where
  add x y := ofCount (x.count + y.count)
  sub x y := ofCount (x.count - y.count)
  mul x y := ofCount (x.count * y.count / 2)
  div x y := ofCount (2 * x.count / y.count)
  natCast n := ofCount (2 * n)
  intCast i := ofCount (2 * i).toNat
  ofScientific digits negative power :=
    ofCount (if negative then 2 * digits / tenTo power else 2 * digits * tenTo power)
  beq x y := decide (x = y)
  lt x y := x.count < y.count
  le x y := x.count ≤ y.count
  decLt := fun x y => inferInstanceAs (Decidable (x.count < y.count))
  decLe := fun x y => inferInstanceAs (Decidable (x.count ≤ y.count))
  root _ x := x
  log _ := zero
  sqrt x := x

/-- Comparing halves is symmetric and transitive. -/
instance : PartialEquivBEq Halves where
  symm h := decide_eq_true (of_decide_eq_true h).symm
  trans h h' := decide_eq_true ((of_decide_eq_true h).trans (of_decide_eq_true h'))

instance : Numeral Halves where
  toDyadic x := Dyadic.ofRatio false x.count 2
  ofDyadic
    | .finite _ 0 _ => zero
    | .finite _ mantissa exponent =>
      ofCount (mantissa * twoTo (exponent + 1).toNat / twoTo (-(exponent + 1)).toNat)
    | .nan | .infinite _ => two

/-- **What is printed is read.** -/
theorem rereads : Json.Rereads Halves := by
  have hread : ∀ (x : Halves) (text : String), Json.numberText x = text →
      Json.read text = some (.float x) → Json.read (Json.numberText x) = some (.float x) :=
    fun _ _ htext hread => htext ▸ hread
  intro x _
  cases x with
  | zero => exact hread zero "0.0" (by decide +kernel) rfl
  | half => exact hread half "0.5" (by decide +kernel) rfl
  | one => exact hread one "1.0" (by decide +kernel) rfl
  | oneAndHalf => exact hread oneAndHalf "1.5" (by decide +kernel) rfl
  | two => exact hread two "2.0" (by decide +kernel) rfl

theorem finite (x : Halves) : Numeral.Finite x := by
  cases x <;> decide +kernel

end Halves

end GraphReasoner
