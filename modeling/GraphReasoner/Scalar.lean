/-!
# The numbers of the reasoner

Confidences, probabilities and scores are numbers of *one* type, and nothing in the reasoner depends
on which one: it adds, multiplies, compares, takes a geometric mean and, for text similarity, a
logarithm and a square root. `GraphReasoner.Scalar` lists exactly these operations. The program runs
on `Float`; a law about confidences is stated over any scalar whose arithmetic is that of an ordered
field.

* `GraphReasoner.Scalar.InUnit` – the closed unit interval, where confidences and probabilities
  live;
* `GraphReasoner.Scalar.descending` – the order of every ranking, greatest first;
* `GraphReasoner.geometricMean` – the strength of a chain of confidences.
-/

namespace GraphReasoner

/-- What the reasoner asks of its numbers. Equality is Boolean, because two not-a-numbers differ. -/
class Scalar (S : Type) extends Add S, Sub S, Mul S, Div S, NatCast S, IntCast S, OfScientific S,
    BEq S, LT S, LE S where
  /-- Whether one number is strictly below another. -/
  decLt : DecidableRel fun x y : S => x < y
  /-- Whether one number is at most another. -/
  decLe : DecidableRel fun x y : S => x ≤ y
  /-- The `n`-th root. -/
  root : Nat → S → S
  /-- The natural logarithm. -/
  log : S → S
  /-- The square root. -/
  sqrt : S → S

namespace Scalar

variable {S : Type} [Scalar S]

instance (x y : S) : Decidable (x < y) :=
  decLt x y

instance (x y : S) : Decidable (x ≤ y) :=
  decLe x y

/-- Membership in `[0, 1]`. A not-a-number is no member. -/
def InUnit (x : S) : Prop :=
  (0.0 : S) ≤ x ∧ x ≤ 1.0

instance (x : S) : Decidable (InUnit x) :=
  inferInstanceAs (Decidable (_ ∧ _))

/-- The lesser of two numbers, the first when they tie. -/
def lesser (x y : S) : S :=
  if y < x then y else x

/-- The greater of two numbers, the first when they tie. -/
def greater (x y : S) : S :=
  if x < y then y else x

/-- The number of `[0, 1]` nearest to `x`. -/
def clampUnit (x : S) : S :=
  if x < 0.0 then 0.0 else if (1.0 : S) < x then 1.0 else x

/-- Ranks the greater number first. -/
def descending (x y : S) : Ordering :=
  if y < x then .lt else if x < y then .gt else .eq

/-- The sum of a list, from the left. -/
def sum (xs : List S) : S :=
  xs.foldl (· + ·) 0.0

/-- The product of a list, from the left. -/
def product (xs : List S) : S :=
  xs.foldl (· * ·) 1.0

end Scalar

variable {S : Type} [Scalar S]

/-- The geometric mean of a list: the root of its product, as many-fold as the list is long. The
empty list has mean zero. -/
def geometricMean (xs : List S) : S :=
  if xs.isEmpty then 0.0 else Scalar.root xs.length (Scalar.product xs)

end GraphReasoner
