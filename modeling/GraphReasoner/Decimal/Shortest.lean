import GraphReasoner.Decimal.Dyadic

/-!
# The fewest digits that read back

Among the decimals that round to a given double there are ones with fewest digits, and among those
one nearest to the double. `GraphReasoner.Decimal.shortest` finds it by exact integer arithmetic:
the reals that round to `m · 2 ^ e` form an interval, and on each decimal grid, from the coarsest to
finer ones, only the two neighbours of the double can be the nearest grid point inside that
interval.

Two neighbours at the same distance are told apart by a rule of the text that is written, so it is
an argument.
-/

namespace GraphReasoner.Decimal

/-- Which of two equally near digit strings is written. -/
inductive TieRule
  /-- The one whose last digit is even. -/
  | toEven
  /-- The greater one. -/
  | up
deriving DecidableEq, Repr

/-- A positive decimal `digits · 10 ^ power`. -/
structure Digits where
  /-- The digits, read as one number. -/
  digits : Nat
  /-- The power of ten of the last digit. -/
  power : Int
deriving DecidableEq, Repr, Inhabited

/-- The reals that round to the double `m · 2 ^ e`, as bounds counted in quarters of `2 ^ e`. Below
a full power of two the doubles lie twice as close, so the lower bound is nearer there. -/
def interval (m : Nat) (e : Int) : Nat × Nat :=
  let below := if m = Dyadic.leadingBit ∧ e > Dyadic.leastExponent then 1 else 2
  (4 * m - below, 4 * m + 2)

/-- Whether `c · 10 ^ p` rounds to `m · 2 ^ e`. The ends of the interval belong to it exactly when
the mantissa is even. -/
def readsBack (m : Nat) (e : Int) (c : Nat) (p : Int) : Bool :=
  let (low, high) := interval m e
  -- both sides are multiplied by a power of ten and a power of two that clear the fractions
  let point := c * tenTo p.toNat * twoTo (2 - e).toNat
  let scale (q : Nat) := q * twoTo (e - 2).toNat * tenTo (-p).toNat
  if m % 2 = 0 then scale low ≤ point && point ≤ scale high
  else scale low < point && point < scale high

/-- The neighbours of `m · 2 ^ e` on the grid of `10 ^ p`, tried from below: the lower neighbour and
how its distance compares with that of the next grid point. -/
def below (m : Nat) (e : Int) (p : Int) : Nat × Ordering :=
  let num := m * twoTo e.toNat * tenTo (-p).toNat
  let den := twoTo (-e).toNat * tenTo p.toNat
  (num / den, compare (2 * (num % den)) den)

/-- The nearest point of the grid of `10 ^ p` that reads back, if there is one. -/
def onGrid (tie : TieRule) (m : Nat) (e : Int) (p : Int) : Option Digits :=
  let (c, distance) := below m e p
  match readsBack m e c p && c != 0, readsBack m e (c + 1) p with
  | false, false => none
  | true, false => some ⟨c, p⟩
  | false, true => some ⟨c + 1, p⟩
  | true, true =>
    let upper := match distance, tie with
      | .lt, _ => false
      | .gt, _ => true
      | .eq, .toEven => c % 2 == 1
      | .eq, .up => true
    some ⟨if upper then c + 1 else c, p⟩

/-- Walks the grids from `10 ^ p` to finer ones. -/
def search (tie : TieRule) (m : Nat) (e : Int) : Nat → Int → Digits
  | 0, p => ⟨(below m e p).1, p⟩
  | fuel + 1, p => (onGrid tie m e p).getD (search tie m e fuel (p - 1))

/-- **The shortest digits** of the positive double `m · 2 ^ e`. Seventeen digits always suffice; the
walk starts at most three grids above the first digit. -/
def shortest (tie : TieRule) (m : Nat) (e : Int) : Digits :=
  let bits : Int := Nat.log2 m + 1 + e
  search tie m e 24 (bits * 30103 / 100000 + 1)

end GraphReasoner.Decimal
