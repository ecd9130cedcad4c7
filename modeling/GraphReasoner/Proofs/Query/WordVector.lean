import GraphReasoner.Proofs.Analytic
import GraphReasoner.Proofs.Table
import GraphReasoner.Query.Similarity
import Mathlib.Algebra.BigOperators.Field
import Mathlib.Algebra.BigOperators.Group.Finset.Basic
import Mathlib.Algebra.Order.BigOperators.Ring.Finset

/-!
# Vectors over words

A sparse vector has a coordinate at every word (`GraphReasoner.Query.coordinate`), which is zero at
the words that it does not list. Sums over the words of one vector are sums over any words that
include them, so the inner product does not depend on which of the two vectors is gone through
(`GraphReasoner.Query.dot_comm`), and what holds of sums of products of coordinates holds of it: it
is at most the product of the lengths (`GraphReasoner.Query.dot_le`).

A vector that is scaled by its length has length one, unless it is zero
(`GraphReasoner.Query.dot_normalize_self`).
-/

namespace GraphReasoner.Query

open ExactScalar (value)

/-! ### Coordinates -/

section Coordinates

variable {S : Type} [Scalar S] [ExactScalar S] {a b v : TermVector S} {word : String}

/-- The coordinate of a vector at a word. -/
noncomputable def coordinate (v : TermVector S) (word : String) : ℝ :=
  ((v.get? word).map value).getD 0

theorem coordinate_of_get? {x : S} (h : v.get? word = some x) : coordinate v word = value x := by
  rw [coordinate, h]
  rfl

theorem coordinate_eq_zero (h : word ∉ v.keys) : coordinate v word = 0 := by
  rw [Table.mem_keys_iff, not_exists] at h
  rw [coordinate, Option.eq_none_iff_forall_ne_some.2 h]
  rfl

/-- A sum over the entries of a vector is a sum over its words. -/
theorem sum_entries (hv : v.Ordered) (f : String → ℝ → ℝ) :
    (v.map fun e => f e.1 (value e.2)).sum =
      ∑ word ∈ v.keys.toFinset, f word (coordinate v word) := by
  rw [List.sum_toFinset _ hv.keys_nodup, Table.keys, List.map_map]
  refine congrArg List.sum (List.map_congr_left fun e he => ?_)
  rw [Function.comp_apply, coordinate_of_get? (hv.mem_iff.1 he)]

/-! ### Inner products -/

/-- The inner product of two vectors, as a real number. -/
noncomputable def dot (a b : TermVector S) : ℝ :=
  ∑ word ∈ a.keys.toFinset, coordinate a word * coordinate b word

/-- The sum may be taken over any words that include those of the first vector. -/
theorem dot_eq_sum {words : Finset String} (h : a.keys.toFinset ⊆ words) :
    dot a b = ∑ word ∈ words, coordinate a word * coordinate b word := by
  refine Finset.sum_subset h fun word _ hout => ?_
  rw [List.mem_toFinset] at hout
  rw [coordinate_eq_zero hout, zero_mul]

/-- **The inner product is the same whichever vector is gone through.** -/
theorem dot_comm : dot a b = dot b a := by
  have ha : a.keys.toFinset ⊆ a.keys.toFinset ∪ b.keys.toFinset := Finset.subset_union_left
  have hb : b.keys.toFinset ⊆ a.keys.toFinset ∪ b.keys.toFinset := Finset.subset_union_right
  rw [dot_eq_sum ha, dot_eq_sum hb]
  exact Finset.sum_congr rfl fun word _ => mul_comm _ _

theorem dot_self_nonneg : 0 ≤ dot v v :=
  Finset.sum_nonneg fun _ _ => mul_self_nonneg _

theorem dot_nonneg (ha : ∀ word, 0 ≤ coordinate a word) (hb : ∀ word, 0 ≤ coordinate b word) :
    0 ≤ dot a b :=
  Finset.sum_nonneg fun word _ => mul_nonneg (ha word) (hb word)

/-- Vectors without negative coordinates are at a right angle when no word has a coordinate in
both. -/
theorem dot_eq_zero_iff (ha : ∀ word, 0 ≤ coordinate a word) (hb : ∀ word, 0 ≤ coordinate b word) :
    dot a b = 0 ↔ ∀ word, coordinate a word = 0 ∨ coordinate b word = 0 := by
  rw [dot, Finset.sum_eq_zero_iff_of_nonneg fun word _ => mul_nonneg (ha word) (hb word)]
  constructor
  · intro h word
    by_cases hword : word ∈ a.keys
    · exact mul_eq_zero.1 (h word (List.mem_toFinset.2 hword))
    · exact Or.inl (coordinate_eq_zero hword)
  · exact fun h word _ => mul_eq_zero.2 (h word)

theorem coordinate_mul_self_le (word : String) :
    coordinate v word * coordinate v word ≤ dot v v := by
  by_cases hword : word ∈ v.keys
  · exact Finset.single_le_sum (f := fun word => coordinate v word * coordinate v word)
      (fun word _ => mul_self_nonneg _) (List.mem_toFinset.2 hword)
  · rw [coordinate_eq_zero hword, mul_zero]
    exact dot_self_nonneg

/-- **The inner product is at most the product of the lengths.** -/
theorem dot_le : dot a b ≤ Real.sqrt (dot a a) * Real.sqrt (dot b b) := by
  have ha : a.keys.toFinset ⊆ a.keys.toFinset ∪ b.keys.toFinset := Finset.subset_union_left
  have hb : b.keys.toFinset ⊆ a.keys.toFinset ∪ b.keys.toFinset := Finset.subset_union_right
  rw [dot_eq_sum (a := a) (b := b) ha, dot_eq_sum (a := a) (b := a) ha, dot_eq_sum hb]
  simpa only [pow_two] using Real.sum_mul_le_sqrt_mul_sqrt (a.keys.toFinset ∪ b.keys.toFinset)
    (coordinate a) (coordinate b)

/-- What an inner product is summed up from, entry by entry. -/
theorem sum_products (a b : TermVector S) :
    ((a.filterMap fun e => (b.get? e.1).map fun w => e.2 * w).map value).sum =
      (a.map fun e => value e.2 * coordinate b e.1).sum := by
  induction a with
  | nil => rfl
  | cons e a ih =>
    rw [List.map_cons, List.sum_cons, ← ih]
    rcases hb : b.get? e.1 with _ | w
    · rw [List.filterMap_cons_none (by rw [hb]; rfl), coordinate, hb]
      simp
    · rw [List.filterMap_cons_some (by rw [hb]; rfl), List.map_cons, List.sum_cons,
        ExactScalar.value_mul, coordinate_of_get? hb]

theorem value_innerProduct (ha : a.Ordered) : value (innerProduct a b) = dot a b := by
  rw [innerProduct, ExactScalar.value_sum, sum_products]
  exact sum_entries ha fun word x => x * coordinate b word

theorem value_cosine (ha : a.Ordered) (hb : b.Ordered) : value (cosine a b) = dot a b := by
  rw [cosine]
  split
  · exact value_innerProduct ha
  · rw [value_innerProduct hb, dot_comm]

end Coordinates

/-! ### Lengths -/

section Lengths

variable {S : Type} [Scalar S] [AnalyticScalar S] {v : TermVector S} {word : String}

theorem value_norm (hv : v.Ordered) : value (norm v) = Real.sqrt (dot v v) := by
  have hsum : ((v.map fun e => e.2 * e.2).map value).sum = dot v v := by
    rw [List.map_map]
    refine Eq.trans (congrArg List.sum (List.map_congr_left fun e _ => ?_))
      (sum_entries hv fun _ x => x * x)
    exact ExactScalar.value_mul _ _
  rw [norm, AnalyticScalar.value_sqrt, ExactScalar.value_sum, hsum]

theorem norm_pos_iff (hv : v.Ordered) : (0.0 : S) < norm v ↔ 0 < dot v v := by
  rw [ExactScalar.lt_iff, value_norm hv, ← Real.sqrt_pos, ExactScalar.value_ofScientific]
  norm_num

omit [AnalyticScalar S] in
theorem keys_normalize : (normalize v).keys = v.keys := by
  rw [normalize]
  split
  · exact Table.keys_map (f := fun _ x => x / norm v)
  · rfl

omit [AnalyticScalar S] in
theorem ordered_normalize (hv : v.Ordered) : (normalize v).Ordered := by
  rw [normalize]
  split
  · exact hv.map (f := fun _ x => x / norm v)
  · exact hv

/-- **Every coordinate is divided by the length**, also where the length is zero. -/
theorem coordinate_normalize (hv : v.Ordered) :
    coordinate (normalize v) word = coordinate v word / Real.sqrt (dot v v) := by
  rw [normalize]
  split
  · rw [← value_norm hv, coordinate, coordinate, Table.get?_map (f := fun _ x => x / norm v)]
    rcases v.get? word with _ | x
    · simp
    · exact ExactScalar.value_div _ _
  · -- a vector of length zero has no coordinate but zero
    rename_i hnorm
    have hdot : dot v v = 0 := le_antisymm (not_lt.1 (mt (norm_pos_iff hv).2 hnorm)) dot_self_nonneg
    have hzero : coordinate v word = 0 :=
      mul_self_eq_zero.1 (le_antisymm (hdot ▸ coordinate_mul_self_le word) (mul_self_nonneg _))
    rw [hzero, zero_div]

/-- **A vector that is not zero is scaled to length one.** -/
theorem dot_normalize_self (hv : v.Ordered) (hpos : 0 < dot v v) :
    dot (normalize v) (normalize v) = 1 := by
  have hscaled : dot (normalize v) (normalize v) = dot v v / Real.sqrt (dot v v) ^ 2 := by
    have hsum : dot v v / Real.sqrt (dot v v) ^ 2 = ∑ word ∈ v.keys.toFinset,
        coordinate v word * coordinate v word / Real.sqrt (dot v v) ^ 2 := Finset.sum_div ..
    rw [hsum, dot, keys_normalize]
    refine Finset.sum_congr rfl fun word _ => ?_
    rw [coordinate_normalize hv, div_mul_div_comm, pow_two]
  rw [hscaled, Real.sq_sqrt hpos.le, div_self hpos.ne']

end Lengths

end GraphReasoner.Query
