import GraphReasoner.Decimal.Dyadic
import Mathlib.Data.Real.Basic
import Mathlib.Tactic.Linarith
import Mathlib.Tactic.NormNum

/-!
# Numbers that compute exactly

Doubles round, so the laws of arithmetic fail for them by a little. A law that speaks of confidences
as quantities is stated over numbers that compute exactly: every number stands for a real one, its
`GraphReasoner.ExactScalar.value`, and arithmetic, comparison and decimal literals are those of the
reals. Roots and logarithms are left open.

The fractions are such numbers (`GraphReasoner.Fraction`), and on them everything can be evaluated.

Rounding does not touch comparison. A law that only compares is stated over numbers that compare
linearly, among which there may be one that is not a number (`GraphReasoner.ComparingScalar`).
-/

namespace GraphReasoner

/-- **Numbers that compare linearly.** A not-a-number may be among them: it differs from itself, is
below nothing, and nothing is below it. -/
class ComparingScalar (S : Type) [Scalar S] : Prop where
  lt_trans : ∀ x y z : S, x < y → y < z → x < z
  not_lt_trans : ∀ x y z : S, (y == y) = true → ¬x < y → ¬y < z → ¬x < z

/-- **Numbers that compute exactly.** -/
class ExactScalar (S : Type) [Scalar S] where
  /-- The real number that a number stands for. -/
  value : S → ℝ
  value_add : ∀ x y : S, value (x + y) = value x + value y
  value_sub : ∀ x y : S, value (x - y) = value x - value y
  value_mul : ∀ x y : S, value (x * y) = value x * value y
  value_div : ∀ x y : S, value (x / y) = value x / value y
  value_natCast : ∀ n : Nat, value (n : S) = n
  value_intCast : ∀ i : Int, value (i : S) = i
  value_ofScientific : ∀ (digits : Nat) (negative : Bool) (power : Nat),
    value (OfScientific.ofScientific digits negative power) =
      OfScientific.ofScientific digits negative power
  lt_iff : ∀ x y : S, x < y ↔ value x < value y
  le_iff : ∀ x y : S, x ≤ y ↔ value x ≤ value y
  beq_iff : ∀ x y : S, (x == y) = true ↔ value x = value y

attribute [simp] ExactScalar.value_add ExactScalar.value_sub ExactScalar.value_mul
  ExactScalar.value_div ExactScalar.value_natCast ExactScalar.value_intCast
  ExactScalar.value_ofScientific

namespace ExactScalar

variable {S : Type} [Scalar S] [ExactScalar S] {x y z : S}

theorem inUnit_iff : Scalar.InUnit x ↔ 0 ≤ value x ∧ value x ≤ 1 := by
  rw [Scalar.InUnit, le_iff, le_iff]
  norm_num

/-- **A product of numbers of the unit interval is one.** -/
theorem inUnit_mul (hx : Scalar.InUnit x) (hy : Scalar.InUnit y) : Scalar.InUnit (x * y) := by
  rw [inUnit_iff] at hx hy ⊢
  rw [value_mul]
  exact ⟨mul_nonneg hx.1 hy.1, mul_le_one₀ hx.2 hy.1 hy.2⟩

/-- Numbers are ordered linearly. -/
theorem not_lt_iff : ¬x < y ↔ y ≤ x := by
  rw [lt_iff, le_iff, not_lt]

/-- Every number compares equal to itself. -/
theorem beq_self (x : S) : (x == x) = true :=
  (beq_iff x x).2 rfl

/-- **Numbers that compute exactly compare linearly.** -/
instance : ComparingScalar S where
  lt_trans x y z h h' := by
    rw [lt_iff] at h h' ⊢
    exact h.trans h'
  not_lt_trans x y z _ h h' := by
    rw [lt_iff, not_lt] at h h' ⊢
    exact h'.trans h

theorem le_self (x : S) : x ≤ x :=
  (le_iff x x).2 le_rfl

theorem le_trans (h : x ≤ y) (h' : y ≤ z) : x ≤ z := by
  rw [le_iff] at h h' ⊢
  exact h.trans h'

theorem le_of_lt (h : x < y) : x ≤ y := by
  rw [lt_iff] at h
  exact (le_iff x y).2 h.le

theorem le_greater : x ≤ Scalar.greater x y ∧ y ≤ Scalar.greater x y := by
  unfold Scalar.greater
  split
  · rename_i h
    exact ⟨le_of_lt h, le_self y⟩
  · rename_i h
    exact ⟨le_self x, not_lt_iff.1 h⟩

/-- One number ranks after another when it is at most as great. -/
theorem descending_ne_gt_iff : (Scalar.descending x y != .gt) = true ↔ y ≤ x := by
  rw [← not_lt_iff, bne_iff_ne, Scalar.descending]
  split
  · rename_i hlt
    rw [lt_iff] at hlt
    simp [lt_iff, hlt.le]
  · split <;> rename_i hlt <;> simp [hlt]

/-- The product of a list stands for the product of what its members stand for. -/
theorem value_product (xs : List S) : value (Scalar.product xs) = (xs.map value).prod := by
  have hone : value (1.0 : S) = 1 := by
    rw [value_ofScientific]
    norm_num
  rw [Scalar.product, List.prod_eq_foldl, List.foldl_map, ← hone]
  exact (List.foldl_hom value fun x y => (value_mul x y).symm).symm

/-- The sum of a list stands for the sum of what its members stand for. -/
theorem value_sum (xs : List S) : value (Scalar.sum xs) = (xs.map value).sum := by
  have hzero : value (0.0 : S) = 0 := by
    rw [value_ofScientific]
    norm_num
  rw [Scalar.sum, List.sum_eq_foldl, List.foldl_map, ← hzero]
  exact (List.foldl_hom value fun x y => (value_add x y).symm).symm

/-! #### Products and means of the unit interval -/

theorem inUnit_one : Scalar.InUnit (1.0 : S) := by
  rw [inUnit_iff]
  norm_num

theorem inUnit_zero : Scalar.InUnit (0.0 : S) := by
  rw [inUnit_iff]
  norm_num

theorem inUnit_product {xs : List S} (h : ∀ x ∈ xs, Scalar.InUnit x) :
    Scalar.InUnit (Scalar.product xs) := by
  have hfold : ∀ (xs : List S) (start : S), Scalar.InUnit start → (∀ x ∈ xs, Scalar.InUnit x) →
      Scalar.InUnit (xs.foldl (· * ·) start) := by
    intro xs
    induction xs with
    | nil => exact fun _ hstart _ => hstart
    | cons x xs ih =>
      intro start hstart hall
      obtain ⟨hx, hxs⟩ := List.forall_mem_cons.1 hall
      exact ih (start * x) (inUnit_mul hstart hx) hxs
  exact hfold xs 1.0 inUnit_one h

/-- **A product of fewer numbers of the unit interval is no less.** -/
theorem product_le_of_sublist {xs ys : List S} (h : ys.Sublist xs)
    (hunit : ∀ x ∈ xs, Scalar.InUnit x) : Scalar.product xs ≤ Scalar.product ys := by
  rw [le_iff, value_product, value_product]
  induction h with
  | slnil => exact le_rfl
  | @cons ys xs x _ ih =>
    obtain ⟨hx, hxs⟩ := List.forall_mem_cons.1 hunit
    have hrest : 0 ≤ (xs.map value).prod := by
      rw [← value_product]
      exact (inUnit_iff.1 (inUnit_product hxs)).1
    rw [List.map_cons, List.prod_cons]
    exact (mul_le_of_le_one_left hrest (inUnit_iff.1 hx).2).trans (ih hxs)
  | @cons_cons ys xs x _ ih =>
    obtain ⟨hx, hxs⟩ := List.forall_mem_cons.1 hunit
    rw [List.map_cons, List.map_cons, List.prod_cons, List.prod_cons]
    exact mul_le_mul_of_nonneg_left (ih hxs) (inUnit_iff.1 hx).1

variable (S) in
/-- **Roots keep to the unit interval.** What the root of a number is stays open otherwise. -/
def RootsInUnit : Prop :=
  ∀ (n : Nat) (x : S), 0 < n → Scalar.InUnit x → Scalar.InUnit (Scalar.root n x)

/-- **A geometric mean of numbers of the unit interval is one**, that of none included. -/
theorem inUnit_geometricMean (hroot : RootsInUnit S) {xs : List S}
    (h : ∀ x ∈ xs, Scalar.InUnit x) : Scalar.InUnit (geometricMean xs) := by
  rw [geometricMean]
  split
  · exact inUnit_zero
  · rename_i hne
    have hpos : 0 < xs.length := by
      rw [List.length_pos_iff]
      exact fun hnil => hne (List.isEmpty_iff.2 hnil)
    exact hroot xs.length _ hpos (inUnit_product h)

/-! #### Shares and means -/

/-- A part of a whole makes a share. -/
theorem inUnit_ratio {part whole : Nat} (h : part ≤ whole) :
    Scalar.InUnit ((part : S) / (whole : S)) := by
  rw [inUnit_iff, value_div, value_natCast, value_natCast]
  have hle : (part : ℝ) ≤ whole := Nat.cast_le.2 h
  exact ⟨by positivity, div_le_one_of_le₀ hle (Nat.cast_nonneg whole)⟩

theorem value_mean (x y : S) : value ((x + y) / 2.0) = (value x + value y) / 2 := by
  rw [value_div, value_add, value_ofScientific]
  norm_num

/-- **The mean of two numbers of the unit interval is one.** -/
theorem inUnit_mean (hx : Scalar.InUnit x) (hy : Scalar.InUnit y) :
    Scalar.InUnit ((x + y) / 2.0) := by
  rw [inUnit_iff] at hx hy ⊢
  rw [value_mean]
  constructor <;> linarith

/-- Clamping leaves the unit interval alone. -/
theorem clampUnit_of_inUnit (h : Scalar.InUnit x) : Scalar.clampUnit x = x := by
  rw [Scalar.clampUnit, if_neg (not_lt_iff.2 h.1), if_neg (not_lt_iff.2 h.2)]

/-- To cut off at one keeps the order. -/
theorem lesser_one_le (h : x ≤ y) : Scalar.lesser x 1.0 ≤ Scalar.lesser y 1.0 := by
  unfold Scalar.lesser
  split
  · rename_i hx
    rw [if_pos]
    · exact le_self _
    · rw [lt_iff] at hx ⊢
      rw [le_iff] at h
      exact hx.trans_le h
  · rename_i hx
    split
    · exact not_lt_iff.1 hx
    · exact h

/-- What is not negative is cut off at one. -/
theorem inUnit_lesser_one (h : 0 ≤ value x) : Scalar.InUnit (Scalar.lesser x 1.0) := by
  unfold Scalar.lesser
  split
  · exact inUnit_one
  · rename_i hle
    rw [lt_iff, not_lt, value_ofScientific] at hle
    rw [inUnit_iff]
    refine ⟨h, hle.trans ?_⟩
    norm_num

end ExactScalar

/-! ### Fractions -/

/-- A fraction. -/
structure Fraction where
  ratio : ℚ
deriving DecidableEq

namespace Fraction

instance : Scalar Fraction where
  add x y := ⟨x.ratio + y.ratio⟩
  sub x y := ⟨x.ratio - y.ratio⟩
  mul x y := ⟨x.ratio * y.ratio⟩
  div x y := ⟨x.ratio / y.ratio⟩
  natCast n := ⟨n⟩
  intCast i := ⟨i⟩
  ofScientific digits negative power := ⟨OfScientific.ofScientific digits negative power⟩
  beq x y := decide (x = y)
  lt x y := x.ratio < y.ratio
  le x y := x.ratio ≤ y.ratio
  decLt := fun x y => inferInstanceAs (Decidable (x.ratio < y.ratio))
  decLe := fun x y => inferInstanceAs (Decidable (x.ratio ≤ y.ratio))
  root _ x := x
  log _ := ⟨0⟩
  sqrt x := x

/-- Comparing fractions is symmetric and transitive. -/
instance : PartialEquivBEq Fraction where
  symm h := decide_eq_true (of_decide_eq_true h).symm
  trans h h' := decide_eq_true ((of_decide_eq_true h).trans (of_decide_eq_true h'))

instance : Numeral Fraction where
  toDyadic x := Dyadic.ofRatio (decide (x.ratio < 0)) x.ratio.num.natAbs x.ratio.den
  ofDyadic
    | .finite negative mantissa exponent =>
      ⟨(if negative then -1 else 1) * mantissa * (2 : ℚ) ^ exponent⟩
    | .nan | .infinite _ => ⟨0⟩

/-- **Fractions compute exactly.** -/
noncomputable instance : ExactScalar Fraction where
  value x := x.ratio
  value_add _ _ := Rat.cast_add ..
  value_sub _ _ := Rat.cast_sub ..
  value_mul _ _ := Rat.cast_mul ..
  value_div _ _ := Rat.cast_div ..
  value_natCast _ := Rat.cast_natCast _
  value_intCast _ := Rat.cast_intCast _
  value_ofScientific _ _ _ := Rat.cast_ofScientific ..
  lt_iff _ _ := Rat.cast_lt.symm
  le_iff _ _ := Rat.cast_le.symm
  beq_iff x y := by
    show decide (x = y) = true ↔ _
    rw [decide_eq_true_iff, Rat.cast_inj]
    exact ⟨congrArg ratio, fun h => by cases x; cases y; exact congrArg mk h⟩

/-- The root of a fraction is the fraction itself, which is right for zero and one. -/
theorem rootsInUnit : ExactScalar.RootsInUnit Fraction :=
  fun _ _ _ hx => hx

end Fraction

end GraphReasoner
