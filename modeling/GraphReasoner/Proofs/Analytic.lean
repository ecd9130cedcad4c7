import GraphReasoner.Proofs.Exact
import Mathlib.Analysis.Real.Sqrt
import Mathlib.Analysis.SpecialFunctions.Log.Basic
import Mathlib.Analysis.SpecialFunctions.Pow.Real

/-!
# Numbers with square roots and logarithms

Weights of words are made with a logarithm and a square root, which numbers that compute exactly
leave open. `GraphReasoner.AnalyticScalar` asks that these two are those of the reals as well. No
numbers that can be evaluated are of this kind; the real numbers are
(`GraphReasoner.RealNumber`).
-/

namespace GraphReasoner

/-- **Numbers that compute exactly, square roots and logarithms included.** -/
class AnalyticScalar (S : Type) [Scalar S] extends ExactScalar S where
  value_sqrt : ∀ x : S, value (Scalar.sqrt x) = Real.sqrt (value x)
  value_log : ∀ x : S, value (Scalar.log x) = Real.log (value x)

/-! ### The real numbers -/

/-- A real number. -/
structure RealNumber where
  real : ℝ

namespace RealNumber

open Classical in
noncomputable instance : Scalar RealNumber where
  add x y := ⟨x.real + y.real⟩
  sub x y := ⟨x.real - y.real⟩
  mul x y := ⟨x.real * y.real⟩
  div x y := ⟨x.real / y.real⟩
  natCast n := ⟨n⟩
  intCast i := ⟨i⟩
  ofScientific digits negative power := ⟨OfScientific.ofScientific digits negative power⟩
  beq x y := decide (x.real = y.real)
  lt x y := x.real < y.real
  le x y := x.real ≤ y.real
  decLt := fun x y => inferInstanceAs (Decidable (x.real < y.real))
  decLe := fun x y => inferInstanceAs (Decidable (x.real ≤ y.real))
  root n x := ⟨x.real ^ (1 / n : ℝ)⟩
  log x := ⟨Real.log x.real⟩
  sqrt x := ⟨Real.sqrt x.real⟩

/-- **The real numbers compute exactly.** -/
noncomputable instance : AnalyticScalar RealNumber where
  value := real
  value_add _ _ := rfl
  value_sub _ _ := rfl
  value_mul _ _ := rfl
  value_div _ _ := rfl
  value_natCast _ := rfl
  value_intCast _ := rfl
  value_ofScientific _ _ _ := rfl
  lt_iff _ _ := Iff.rfl
  le_iff _ _ := Iff.rfl
  beq_iff _ _ := decide_eq_true_iff
  value_sqrt _ := rfl
  value_log _ := rfl

end RealNumber

end GraphReasoner
