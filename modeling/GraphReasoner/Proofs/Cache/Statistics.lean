import GraphReasoner.Cache.Statistics
import GraphReasoner.Proofs.Table
import Mathlib.Data.List.Induction

/-!
# The numbers of a cache add up

The statistics of a cache split its entries by kind of data. The split is made by a loop that counts
one entry after another into the table of kinds, and each turn adds the numbers of its entry to one
row. So whatever is counted that way adds up over the rows to the total over the entries
(`GraphReasoner.Entry.sum_kindStatistics`), and a row holds the numbers of the entries of its kind
and no others (`GraphReasoner.Entry.get?_kindStatistics`).
-/

namespace GraphReasoner

namespace Entry

/-- The numbers of some entries, taken together. -/
def numbers (entries : List Entry) : KindStatistics :=
  ⟨entries.length, totalSize entries, (entries.map accesses).sum⟩

theorem totalSize_append (entries more : List Entry) :
    totalSize (entries ++ more) = totalSize entries + totalSize more := by
  induction entries with
  | nil => exact (Nat.zero_add _).symm
  | cons e entries ih => rw [List.cons_append, totalSize, totalSize, ih, Nat.add_assoc]

theorem totalSize_eq_sum (entries : List Entry) :
    totalSize entries = (entries.map size).sum := by
  induction entries with
  | nil => rfl
  | cons e entries ih => rw [totalSize, ih, List.map_cons, List.sum_cons]

theorem add_numbers (entries : List Entry) (e : Entry) :
    (numbers entries).add e = numbers (entries ++ [e]) := by
  simp [numbers, KindStatistics.add, totalSize_append, totalSize]

/-- One more entry is counted after all others. -/
theorem kindStatistics_concat (entries : List Entry) (e : Entry) :
    kindStatistics (entries ++ [e]) =
      (kindStatistics entries).update e.kind ⟨0, 0, 0⟩ fun s => s.add e :=
  List.foldl_concat ..

theorem kindStatistics_ordered (entries : List Entry) : (kindStatistics entries).Ordered := by
  induction entries using List.reverseRecOn with
  | nil => exact List.Pairwise.nil
  | append_singleton entries e ih =>
    rw [kindStatistics_concat]
    exact ih.update _ _ _

/-- **What is counted adds up**: over the rows of the kinds as over the entries. -/
theorem sum_kindStatistics {measure : KindStatistics → Nat} {weight : Entry → Nat}
    (hzero : measure ⟨0, 0, 0⟩ = 0) (hadd : ∀ s e, measure (s.add e) = measure s + weight e)
    (entries : List Entry) :
    ((kindStatistics entries).values.map measure).sum = (entries.map weight).sum := by
  induction entries using List.reverseRecOn with
  | nil => rfl
  | append_singleton entries e ih =>
    rw [kindStatistics_concat,
      (kindStatistics_ordered entries).sum_update hzero fun s => hadd s e, ih]
    simp

/-- **A row holds the numbers of the entries of its kind**, and a kind without entries has no
row. -/
theorem get?_kindStatistics (entries : List Entry) (kind : String) :
    (kindStatistics entries).get? kind =
      if (entries.filter fun e => e.kind == kind).isEmpty then none
      else some (numbers (entries.filter fun e => e.kind == kind)) := by
  induction entries using List.reverseRecOn with
  | nil => rfl
  | append_singleton entries e ih =>
    rw [kindStatistics_concat, Table.get?_update, List.filter_append]
    by_cases hk : e.kind = kind
    · -- the row of the kind was there, or it is begun with zeros
      have hrow : ((kindStatistics entries).get? kind).getD ⟨0, 0, 0⟩ =
          numbers (entries.filter fun e => e.kind == kind) := by
        rw [ih]
        split
        · rename_i hempty
          rw [List.isEmpty_iff.1 hempty]
          rfl
        · rfl
      rw [if_pos hk, hk, hrow, add_numbers]
      simp [hk]
    · rw [if_neg hk, ih]
      simp [hk]

end Entry

end GraphReasoner
