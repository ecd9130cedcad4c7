import GraphReasoner.Proofs.Cache.Deletions
import GraphReasoner.Proofs.Cache.Statistics
import Mathlib.Algebra.Order.BigOperators.Group.List
import Mathlib.Data.List.Nodup
import Mathlib.Data.Prod.Lex
import Mathlib.Data.String.Basic

/-!
# What storing takes away

When storing a payload brings the cache above its budget, entries have to go, and when their
deletions succeed it is settled which ones (`GraphReasoner.Cache.Leaves`): none while the budget is
kept, else what is expired, and if that is not enough the shortest beginning of the rest in the
order of eviction. The order is `GraphReasoner.Entry.UsedBefore`, a strict linear order on entries
of different keys, so nothing is left to chance. That the eviction does this is
`GraphReasoner.Cache.leaves_store`: with every deletion a success, both of its loops come down to
dropping a list of keys (`GraphReasoner.Cache.keepBudget_eq_dropAll`).

The entry that was just stored takes part in this like any other. It was never asked for, so it is
among the first to go, but what is also unused and older goes before it. This matters for a payload
that is longer than the whole budget (`GraphReasoner.Cache.store_oversized`): it cannot stay, and
whatever stands before it in the order goes with it (`GraphReasoner.Cache.not_store_keeps_others`).
-/

namespace GraphReasoner

open GraphReasoner.Time (Instant Duration)

/-! ### The order of eviction -/

namespace Entry

/-- **The order of eviction**: what was asked for less often goes first, of this what was not asked
for the longest, and of this the first by key. -/
def UsedBefore (a b : Entry) : Prop :=
  a.accesses < b.accesses ∨ a.accesses = b.accesses ∧
    (a.lastAccess < b.lastAccess ∨ a.lastAccess = b.lastAccess ∧ a.key < b.key)

instance (a b : Entry) : Decidable (a.UsedBefore b) := inferInstanceAs (Decidable (_ ∨ _))

/-- An entry that was stored now comes after what was not asked for either and is older. -/
theorem usedBefore_newEntry_iff {settings : CacheSettings} {key : String} {payload : Bytes}
    {lifetime : Option Duration} {kind : String} {now : Instant} {e : Entry} :
    e.UsedBefore (Cache.newEntry settings key payload lifetime kind now) ↔
      e.accesses = 0 ∧ (e.lastAccess < now ∨ e.lastAccess = now ∧ e.key < key) := by
  simp only [UsedBefore, Cache.newEntry, Nat.not_lt_zero, false_or]

/-- What the order compares. -/
def rank (e : Entry) : ℕ ×ₗ ℤ ×ₗ ℕ ×ₗ String :=
  toLex (e.accesses, toLex (e.lastAccess.seconds, toLex (e.lastAccess.nanos, e.key)))

variable {a b : Entry}

theorem usedBefore_iff : a.UsedBefore b ↔ a.rank < b.rank := by
  have hinstant : a.lastAccess = b.lastAccess ↔ a.lastAccess.seconds = b.lastAccess.seconds ∧
      a.lastAccess.nanos = b.lastAccess.nanos := by
    rw [← Instant.mk.injEq]
  have hlt : a.lastAccess < b.lastAccess ↔ a.lastAccess.seconds < b.lastAccess.seconds ∨
      a.lastAccess.seconds = b.lastAccess.seconds ∧ a.lastAccess.nanos < b.lastAccess.nanos :=
    Iff.rfl
  simp only [UsedBefore, rank, Prod.Lex.lt_iff, ofLex_toLex, hinstant, hlt]
  tauto

/-- The comparison of the eviction is that of the order. -/
theorem lessUsed_iff : a.lessUsed b = true ↔ a.rank ≤ b.rank := by
  have hgt : a.compareUse b = .gt ↔ b.UsedBefore a := by
    change ((compare a.accesses b.accesses).then
      ((compare a.lastAccess.seconds b.lastAccess.seconds).then
        (compare a.lastAccess.nanos b.lastAccess.nanos))).then (compare a.key b.key) = .gt ↔ _
    rw [usedBefore_iff]
    simp only [Ordering.then_eq_gt, Ordering.then_eq_eq, compare_gt_iff_gt, compare_eq_iff_eq,
      rank, Prod.Lex.lt_iff, ofLex_toLex]
    tauto
  rw [lessUsed, bne_iff_ne, Ne, hgt, usedBefore_iff, not_lt]

/-- The eviction goes through entries of different keys in the order. -/
theorem pairwise_mergeSort {entries : List Entry} (h : (entries.map key).Nodup) :
    (entries.mergeSort lessUsed).Pairwise UsedBefore := by
  have hsorted := @List.pairwise_mergeSort _ lessUsed
    (fun a b c hab hbc => lessUsed_iff.2 ((lessUsed_iff.1 hab).trans (lessUsed_iff.1 hbc)))
    (fun a b => by simpa only [Bool.or_eq_true, lessUsed_iff] using le_total a.rank b.rank) entries
  have hkeys : (entries.mergeSort lessUsed).Pairwise fun a b => a.key ≠ b.key :=
    List.pairwise_map.1 (((List.mergeSort_perm entries lessUsed).map key).nodup_iff.2 h)
  refine (hsorted.and hkeys).imp fun {a b} hab => usedBefore_iff.2 ?_
  refine lt_of_le_of_ne (lessUsed_iff.1 hab.1) fun hrank => hab.2 ?_
  exact congrArg (fun r => (ofLex (ofLex (ofLex r).2).2).2) hrank

/-- The order of entries of different keys is the only one. -/
theorem mergeSort_eq {entries order : List Entry} (h : (entries.map key).Nodup)
    (hperm : order.Perm entries) (horder : order.Pairwise UsedBefore) :
    entries.mergeSort lessUsed = order := by
  refine List.Perm.eq_of_pairwise (fun a b _ _ hab hba => ?_) (pairwise_mergeSort h) horder
    ((List.mergeSort_perm entries lessUsed).trans hperm.symm)
  exact absurd (usedBefore_iff.1 hab) (usedBefore_iff.1 hba).not_gt

/-- Different entries in the order are different. -/
theorem nodup_of_pairwise {entries : List Entry} (h : entries.Pairwise UsedBefore) :
    entries.Nodup :=
  h.imp fun {a b} hab => by
    rintro rfl
    exact lt_irrefl _ (usedBefore_iff.1 hab)

/-- In the order, what is used before an entry is what stands before it. -/
theorem mem_before_iff {before after : List Entry} {e new : Entry}
    (horder : (before ++ new :: after).Pairwise UsedBefore) (he : e ∈ before ++ new :: after)
    (hne : e ≠ new) : e ∈ before ↔ e.UsedBefore new := by
  obtain ⟨-, hlater, hbefore⟩ := List.pairwise_append.1 horder
  refine ⟨fun h => hbefore e h new List.mem_cons_self, fun h => ?_⟩
  rcases List.mem_append.1 he with he | he
  · exact he
  · have hafter := (List.pairwise_cons.1 hlater).1 e ((List.mem_cons.1 he).resolve_left hne)
    exact absurd (usedBefore_iff.1 hafter) (usedBefore_iff.1 h).not_gt

theorem totalSize_perm {entries others : List Entry} (h : entries.Perm others) :
    totalSize entries = totalSize others := by
  rw [totalSize_eq_sum, totalSize_eq_sum]
  exact (h.map size).sum_eq

/-- Entries weigh no more than more entries. -/
theorem totalSize_subperm {entries others : List Entry} (h : entries.Subperm others) :
    totalSize entries ≤ totalSize others := by
  obtain ⟨same, hperm, hsub⟩ := h
  rw [← totalSize_perm hperm, totalSize_eq_sum, totalSize_eq_sum]
  exact (hsub.map size).sum_le_sum fun _ _ => Nat.zero_le _

end Entry

namespace Cache

/-! ### What a budget leaves -/

/-- What is not expired. -/
def unexpired (index : Table Entry) (now : Instant) : Table Entry :=
  index.filter fun item => ¬item.2.Expired now

/-- An index without some of its entries. -/
def without (index : Table Entry) (gone : List Entry) : Table Entry :=
  index.filter fun item => item.2 ∉ gone

/-- **What a budget leaves of an index**: all of it, if that fits; else all that is not expired, if
that fits; else this without the shortest beginning in the order of eviction after which the rest
fits. -/
inductive Leaves (budget : Nat) (now : Instant) (index : Table Entry) : Table Entry → Prop
  /-- Nothing has to go, not even what is expired. -/
  | all : Entry.totalSize index.values ≤ budget → Leaves budget now index index
  /-- It is enough that what is expired goes. -/
  | live : budget < Entry.totalSize index.values →
      Entry.totalSize (unexpired index now).values ≤ budget →
      Leaves budget now index (unexpired index now)
  /-- The least used entries go, as many as have to. -/
  | rest (order : List Entry) (n : Nat) : budget < Entry.totalSize index.values →
      budget < Entry.totalSize (unexpired index now).values →
      order.Perm (unexpired index now).values → order.Pairwise Entry.UsedBefore →
      Entry.totalSize (without (unexpired index now) (order.take n)).values ≤ budget →
      (∀ m < n,
        budget < Entry.totalSize (without (unexpired index now) (order.take m)).values) →
      Leaves budget now index (without (unexpired index now) (order.take n))

section Without

variable {index : Table Entry} {now : Instant}

theorem unexpired_sublist : (unexpired index now).Sublist index := List.filter_sublist

theorem without_sublist {gone : List Entry} : (without index gone).Sublist index :=
  List.filter_sublist

theorem Filed.unexpired (hf : Filed index) : Filed (unexpired index now) :=
  hf.sublist unexpired_sublist

/-- What a part of an index has under a key. -/
theorem get?_sublist {rest : Table Entry} (hf : Filed index) (hs : rest.Sublist index)
    {key : String} {e : Entry} :
    rest.get? key = some e ↔ index.get? key = some e ∧ e ∈ rest.values := by
  have hrest := hf.sublist hs
  constructor
  · intro he
    have hmem := hrest.ordered.mem_iff.2 he
    exact ⟨hf.ordered.mem_iff.1 (hs.subset hmem), List.mem_map_of_mem hmem⟩
  · rintro ⟨he, hmem⟩
    rw [← hf.key_eq he]
    exact hrest.get?_key hmem

theorem values_filter (p : Entry → Bool) :
    Table.values (index.filter fun item => p item.2) = index.values.filter p := by
  rw [Table.values, Table.values, List.filter_map]
  rfl

theorem mem_unexpired {e : Entry} :
    e ∈ (unexpired index now).values ↔ e ∈ index.values ∧ ¬e.Expired now := by
  rw [unexpired, values_filter fun e => ¬e.Expired now, List.mem_filter, decide_eq_true_eq]

theorem mem_without {gone : List Entry} {e : Entry} :
    e ∈ (without index gone).values ↔ e ∈ index.values ∧ e ∉ gone := by
  rw [without, values_filter fun e => e ∉ gone, List.mem_filter, decide_eq_true_eq]

/-- To take keys out is to take their entries out. -/
theorem filter_keys (hf : Filed index) {gone : List Entry} (hgone : ∀ e ∈ gone, e ∈ index.values) :
    index.filter (fun item => item.1 ∉ gone.map Entry.key) = without index gone := by
  refine List.filter_congr fun item hitem => ?_
  have hkey : item.1 ∈ gone.map Entry.key ↔ item.2 ∈ gone := by
    rw [← hf.own item hitem]
    refine ⟨fun h => ?_, List.mem_map_of_mem⟩
    obtain ⟨e, he, hsame⟩ := List.mem_map.1 h
    rwa [← List.inj_on_of_nodup_map hf.values_keys_nodup (hgone e he)
      (List.mem_map_of_mem hitem) hsame]
  simp only [hkey]

/-- The size of an index without a beginning of its entries is the size of those further on. -/
theorem totalSize_without {order : List Entry} (hperm : order.Perm index.values)
    (hnodup : order.Nodup) (n : Nat) :
    Entry.totalSize (without index (order.take n)).values = Entry.totalSize (order.drop n) := by
  refine Entry.totalSize_perm ?_
  have hvalues : (without index (order.take n)).values =
      index.values.filter (fun e => e ∉ order.take n) :=
    values_filter fun e => e ∉ order.take n
  have hdrop : order.filter (fun e => e ∉ order.take n) = order.drop n := by
    have hsplit := List.nodup_append.1 ((List.take_append_drop n order).symm ▸ hnodup)
    have hlater : (order.drop n).filter (fun e => e ∉ order.take n) = order.drop n :=
      List.filter_eq_self.2 fun e he => by
        simpa using fun htake => hsplit.2.2 e htake e he rfl
    calc order.filter (fun e => e ∉ order.take n)
        = (order.take n ++ order.drop n).filter (fun e => e ∉ order.take n) := by
          rw [List.take_append_drop]
      _ = order.drop n := by
          rw [List.filter_append, hlater, List.filter_eq_nil_iff.2 (by simp), List.nil_append]
  rw [hvalues, ← hdrop]
  exact (hperm.symm.filter _)

end Without

variable {M : Type} [Medium M]

/-! ### Both loops with success -/

section Loops

variable {c : Cache (Recorded M)} {now : Instant}

/-- **Evicting with success** drops a beginning of the candidates: it goes on while the total is
above the budget, and stops when it is not or no candidate is left. -/
theorem evict_eq_dropAll {total : Nat} {entries : List Entry}
    (h : (c.evict total entries).AllDeleted) :
    ∃ n ≤ entries.length, c.evict total entries = c.dropAll ((entries.take n).map Entry.key) ∧
      (∀ m < n, c.settings.budget + Entry.totalSize (entries.take m) < total) ∧
      (total ≤ c.settings.budget + Entry.totalSize (entries.take n) ∨ n = entries.length) := by
  induction entries generalizing c total with
  | nil => exact ⟨0, le_rfl, rfl, nofun, Or.inr rfl⟩
  | cons e entries ih =>
    rw [evict_cons] at h ⊢
    by_cases hfits : total ≤ c.settings.budget
    · rw [if_pos hfits]
      exact ⟨0, Nat.zero_le _, rfl, nofun, Or.inl hfits⟩
    rw [if_neg hfits] at h ⊢
    have hdropped : (c.drop e.key).1 = true := by
      refine (allDeleted_drop.1 ?_).1
      split at h <;> exact (drops_evict _ _ _).allDeleted h
    rw [if_pos hdropped] at h ⊢
    obtain ⟨n, hn, heq, hleast, hend⟩ := ih h
    rw [drop_settings] at hleast hend
    refine ⟨n + 1, Nat.succ_le_succ hn, heq, fun m hm => ?_, ?_⟩
    · rcases m with _ | m
      · simp only [List.take_zero, Entry.totalSize]
        omega
      · have hm' := hleast m (Nat.lt_of_succ_lt_succ hm)
        rw [List.take_succ_cons, Entry.totalSize]
        omega
    · rw [List.take_succ_cons, Entry.totalSize, List.length_cons]
      omega

/-- **Keeping the budget with success** drops some of the keys of the index, one after another. -/
theorem keepBudget_eq_dropAll (hf : Filed c.index) (h : (c.keepBudget now).AllDeleted) :
    ∃ keys, (∀ key ∈ keys, c.index.contains key = true) ∧ c.keepBudget now = c.dropAll keys := by
  by_cases hfits : c.totalSize ≤ c.settings.budget
  · refine ⟨[], nofun, ?_⟩
    rw [keepBudget, if_pos hfits]
    rfl
  rw [keepBudget_of_lt (by omega)] at h ⊢
  obtain ⟨n, -, heq, -⟩ := evict_eq_dropAll h
  refine ⟨(c.expired now).map Entry.key ++
    ((c.evictionStart now).2.2.take n).map Entry.key, fun key hkey => ?_, ?_⟩
  · have hentry : ∀ e ∈ c.index.values, c.index.contains e.key = true := fun e he =>
      Table.contains_iff.2 ⟨e, hf.get?_key he⟩
    rcases List.mem_append.1 hkey with hkey | hkey <;> obtain ⟨e, he, rfl⟩ := List.mem_map.1 hkey
    · exact hentry e (List.mem_of_mem_filter he)
    · have hpurged := (List.mergeSort_perm _ Entry.lessUsed).mem_iff.1 (List.mem_of_mem_take he)
      exact hentry e (((drops_purge c now).index_sublist.map Prod.snd).subset hpurged)
  · rw [heq]
    exact (List.foldl_append ..).symm

/-- **Keeping the budget with success** leaves of the index what the budget leaves of it. -/
theorem leaves_keepBudget (hf : Filed c.index) (h : (c.keepBudget now).AllDeleted) :
    Leaves c.settings.budget now c.index (c.keepBudget now).index := by
  by_cases hfits : c.totalSize ≤ c.settings.budget
  · rw [keepBudget, if_pos hfits]
    exact .all hfits
  have hover : c.settings.budget < c.totalSize := Nat.lt_of_not_le hfits
  rw [keepBudget_of_lt hover] at h ⊢
  have hpurged : (c.purge now).index = unexpired c.index now :=
    purge_index hf ((drops_evict _ _ _).allDeleted h)
  have hlive : Filed (unexpired c.index now) := hf.unexpired
  -- what the loop goes through, and what its total counts
  have horder : (c.evictionStart now).2.2 =
      (unexpired c.index now).values.mergeSort Entry.lessUsed := by
    rw [evictionStart, hpurged]
  have htotal : (c.evictionStart now).2.1 = Entry.totalSize (unexpired c.index now).values := by
    rw [evictionStart, totalSize, hpurged]
  have hperm := List.mergeSort_perm (unexpired c.index now).values Entry.lessUsed
  have hsorted := Entry.pairwise_mergeSort hlive.values_keys_nodup
  obtain ⟨n, hn, heq, hleast, hend⟩ := evict_eq_dropAll h
  rw [heq] at h ⊢
  rw [(drops_purge c now).settings, horder, htotal] at hleast hend
  rw [dropAll_index h, hpurged, horder, filter_keys hlive fun e he =>
    hperm.mem_iff.1 (List.mem_of_mem_take he)]
  generalize (unexpired c.index now).values.mergeSort Entry.lessUsed = order at *
  have hnodup : order.Nodup := hperm.nodup_iff.2 (hlive.values_keys_nodup.of_map _)
  -- the size of a beginning and the size of the rest make up the whole
  have hsplit : ∀ m, Entry.totalSize (order.take m) +
      Entry.totalSize (without (unexpired c.index now) (order.take m)).values =
        Entry.totalSize (unexpired c.index now).values := fun m => by
    rw [totalSize_without hperm hnodup, ← Entry.totalSize_append, List.take_append_drop,
      Entry.totalSize_perm hperm]
  by_cases hover' : Entry.totalSize (unexpired c.index now).values ≤ c.settings.budget
  · -- the loop does not begin
    have hnone : n = 0 := by
      by_contra hne
      have hfirst := hleast 0 (Nat.pos_of_ne_zero hne)
      omega
    subst hnone
    have hall : without (unexpired c.index now) (order.take 0) = unexpired c.index now := by
      simp [without]
    rw [hall]
    exact .live hover hover'
  · refine .rest order n hover (by omega) hperm hsorted ?_ fun m hm => ?_
    · rcases hend with hend | rfl
      · have hn := hsplit n
        omega
      · have hall := totalSize_without hperm hnodup order.length
        rw [List.drop_length] at hall
        rw [hall]
        exact Nat.zero_le _
    · have hm' := hleast m hm
      have hrest := hsplit m
      omega

/-- **Keeping the budget with success** deletes the payloads of the entries that go and no
others. -/
theorem held_keepBudget {held : M → String → Option Bytes} (hshows : Medium.ShowsDeletions held)
    (hf : Filed c.index) (h : (c.keepBudget now).AllDeleted) (key : String) :
    held (c.keepBudget now).forget.medium key =
      if c.index.contains key = true ∧ (c.keepBudget now).index.contains key = false then none
      else held c.forget.medium key := by
  obtain ⟨keys, hkeys, heq⟩ := keepBudget_eq_dropAll hf h
  rw [heq] at h ⊢
  have hgone : key ∈ keys ↔
      c.index.contains key = true ∧ (c.dropAll keys).index.contains key = false := by
    have hstays : (c.dropAll keys).index.contains key = true ↔
        c.index.contains key = true ∧ key ∉ keys := by
      have hlast := (hf.sublist (drops_dropAll c keys).index_sublist).ordered
      rw [Table.contains_iff, Table.contains_iff, ← exists_and_right]
      refine exists_congr fun e => ?_
      rw [← hlast.mem_iff, ← hf.ordered.mem_iff, dropAll_index h, List.mem_filter,
        decide_eq_true_eq]
    rw [← Bool.not_eq_true, hstays]
    exact ⟨fun hkey => ⟨hkeys key hkey, fun hrest => hrest.2 hkey⟩,
      fun hrest => by_contra fun hkey => hrest.2 ⟨hrest.1, hkey⟩⟩
  rw [dropAll_held hshows h]
  simp only [hgone]

end Loops

/-! ### Storing with success -/

section Store

variable {c : Cache M} {key : String} {payload : Bytes} {lifetime : Option Duration} {kind : String}
  {now : Instant}

/-- Storing over the medium that records deletions, once the payload is written. -/
theorem store_eq_recorded (hw : (Medium.write c.medium key payload).1 = .ok ()) :
    c.store key payload lifetime kind now =
      (((c.recorded.written key now payload lifetime kind).keepBudget now).index.contains key,
        ((c.recorded.written key now payload lifetime kind).keepBudget now).forget.persist) := by
  rw [store_of_write hw, ← forget_index, forget_keepBudget, forget_written,
    forget_recorded]

section Settled

variable (hc : c.Reachable) (hw : (Medium.write c.medium key payload).1 = .ok ())
  (hdeleted : ∀ d ∈ c.storeDeletions key payload lifetime kind now, d.2 = true)
include hw

theorem store_index :
    (c.store key payload lifetime kind now).2.index =
      ((c.recorded.written key now payload lifetime kind).keepBudget now).index := by
  rw [store_eq_recorded hw, persist_index, forget_index]

/-- A payload is stored when its entry is still there in the end. -/
theorem store_fst_iff : (c.store key payload lifetime kind now).1 = true ↔
    (c.store key payload lifetime kind now).2.index.contains key = true := by
  rw [store_index hw, store_eq_recorded hw]

include hc hdeleted

theorem leaves_store_index : Leaves c.settings.budget now
    (c.index.insert key (newEntry c.settings key payload lifetime kind now))
    (c.store key payload lifetime kind now).2.index := by
  rw [store_index hw]
  exact leaves_keepBudget (c := c.recorded.written key now payload lifetime kind)
    (hc.filed.written key now payload lifetime kind)
    fun d hd => hdeleted d (storeDeletions_eq hw ▸ hd)

/-- The payloads that are gone are those of the entries that are gone. -/
theorem held_store {held : M → String → Option Bytes} (hshows : Medium.Shows held) (k : String) :
    held (c.store key payload lifetime kind now).2.medium k =
      if (c.index.insert key (newEntry c.settings key payload lifetime kind now)).contains k = true
          ∧ (c.store key payload lifetime kind now).2.index.contains k = false then none
      else Function.update (held c.medium) key (some payload) k := by
  have hstored : held (c.store key payload lifetime kind now).2.medium k =
      held ((c.recorded.written key now payload lifetime kind).keepBudget now).forget.medium k := by
    rw [store_eq_recorded hw, held_persist hshows.toShowsDeletions]
  rw [hstored, store_index hw, ← hshows.write_ok hw]
  exact held_keepBudget (c := c.recorded.written key now payload lifetime kind)
    hshows.toShowsDeletions (hc.filed.written key now payload lifetime kind)
    (fun d hd => hdeleted d (storeDeletions_eq hw ▸ hd)) k

end Settled

/-- **Storing takes away what it has to and no more.** Let a payload be written in a reachable cache
and every deletion of the call succeed. Then the index is what the budget leaves of the index with
the new entry in it; the answer tells whether the new entry is part of this; and the payloads that
are gone are those of the entries that are gone. -/
theorem leaves_store (hc : c.Reachable) {held : M → String → Option Bytes}
    (hshows : Medium.Shows held) (hw : (Medium.write c.medium key payload).1 = .ok ())
    (hdeleted : ∀ d ∈ c.storeDeletions key payload lifetime kind now, d.2 = true) :
    let stored := c.store key payload lifetime kind now
    let index := c.index.insert key (newEntry c.settings key payload lifetime kind now)
    Leaves c.settings.budget now index stored.2.index ∧
    (stored.1 = true ↔ stored.2.index.contains key = true) ∧
    ∀ k, held stored.2.medium k =
      if index.contains k = true ∧ stored.2.index.contains k = false then none
      else Function.update (held c.medium) key (some payload) k :=
  ⟨leaves_store_index hc hw hdeleted, store_fst_iff hw, held_store hc hw hdeleted hshows⟩

/-- The entries of three bytes each that are stored under `a`, `b` and `c`, with one of no lifetime
under `x` before them, and a hit for `a`. -/
def crowded : Cache Memory :=
  (openOn .empty ⟨10, 60⟩ ⟨0, 0⟩).run
    [.store "x" [0] (some ⟨0⟩) "general" ⟨1, 0⟩, .store "a" [1, 1, 1] none "general" ⟨2, 0⟩,
      .store "b" [2, 2, 2] none "general" ⟨3, 0⟩, .store "c" [3, 3, 3] none "general" ⟨4, 0⟩,
      .get "a" ⟨5, 0⟩]

theorem crowded_get?_b :
    crowded.index.get? "b" = some ⟨"b", ⟨3, 0⟩, ⟨63, 0⟩, 3, "general", 0, ⟨3, 0⟩⟩ := rfl

/-- The candidates when a payload is stored under `d` as well: the entry under `x` is expired, and
the one that was asked for comes last. -/
def crowdedOrder (payload : Bytes) : List Entry :=
  [⟨"b", ⟨3, 0⟩, ⟨63, 0⟩, 3, "general", 0, ⟨3, 0⟩⟩, ⟨"c", ⟨4, 0⟩, ⟨64, 0⟩, 3, "general", 0, ⟨4, 0⟩⟩,
    newEntry crowded.settings "d" payload none "general" ⟨6, 0⟩,
    ⟨"a", ⟨2, 0⟩, ⟨62, 0⟩, 3, "general", 1, ⟨5, 0⟩⟩]

theorem crowded_keepBudget (payload : Bytes) (hne : payload ≠ []) :
    let written := crowded.recorded.written "d" ⟨6, 0⟩ payload none "general"
    written.keepBudget ⟨6, 0⟩ =
      (written.purge ⟨6, 0⟩).evict (9 + payload.length) (crowdedOrder payload) := by
  intro written
  have hlength := List.length_pos_of_ne_nil hne
  have hsize : written.totalSize = 3 + (3 + (3 + (payload.length + 1))) := rfl
  have hover : 10 < written.totalSize := by omega
  have hpurged : (written.purge ⟨6, 0⟩).totalSize = 3 + (3 + (3 + payload.length)) := rfl
  have htotal : (written.purge ⟨6, 0⟩).totalSize = 9 + payload.length := by omega
  have horder : (written.purge ⟨6, 0⟩).index.values.mergeSort Entry.lessUsed =
      crowdedOrder payload :=
    Entry.mergeSort_eq (of_decide_eq_true rfl) (List.perm_append_singleton _ [_, _, _])
      (of_decide_eq_true rfl)
  rw [keepBudget_of_lt hover, evictionStart, htotal, horder]

/-- Four bytes more than fit: what is expired goes, which is not enough, and then the older one of
the entries that were not asked for. -/
theorem leaves_store_crowded :
    let stored := crowded.store "d" [4, 4, 4, 4] none "general" ⟨6, 0⟩
    crowded.index.keys = ["a", "b", "c", "x"] ∧ stored.2.index.keys = ["a", "c", "d"] ∧
      stored.1 = true ∧ stored.2.medium.payloads.get? "b" = none ∧
      Leaves 10 ⟨6, 0⟩ (crowded.index.insert "d"
        (newEntry crowded.settings "d" [4, 4, 4, 4] none "general" ⟨6, 0⟩)) stored.2.index := by
  intro stored
  have hdeleted : ∀ d ∈ crowded.storeDeletions "d" [4, 4, 4, 4] none "general" ⟨6, 0⟩,
      d.2 = true := by
    rw [storeDeletions_eq rfl, crowded_keepBudget _ (by decide)]
    decide +kernel
  obtain ⟨hleaves, hanswer, hheld⟩ :=
    leaves_store ⟨_, _, _, _, rfl⟩ FaithfulMedium.shows rfl hdeleted
  let purged := (crowded.recorded.written "d" ⟨6, 0⟩ [4, 4, 4, 4] none "general").purge ⟨6, 0⟩
  have hindex : stored.2.index = (purged.evict 13 (crowdedOrder [4, 4, 4, 4])).index := by
    rw [store_index rfl, crowded_keepBudget _ (by decide)]
    rfl
  have hkeys : stored.2.index.keys = ["a", "c", "d"] := by
    rw [hindex]
    rfl
  have hkept : stored.2.index.contains "d" = true := by
    rw [hindex]
    rfl
  have hgone : stored.2.index.contains "b" = false := by
    rw [hindex]
    rfl
  exact ⟨rfl, hkeys, hanswer.2 hkept, (hheld "b").trans (if_pos ⟨rfl, hgone⟩), hleaves⟩

/-! ### A payload longer than the budget -/

section Oversized

variable {budget : Nat} {index kept : Table Entry}

/-- Apart from the entry that is inserted, an index has what it had. -/
theorem subperm_erase_insert (hf : Filed index) (new : Entry) :
    ((index.insert new.key new).erase new.key).values.Subperm index.values := by
  have hrest : Filed ((index.insert new.key new).erase new.key) :=
    (hf.insert rfl).sublist List.filter_sublist
  refine List.subperm_of_subset (hrest.values_keys_nodup.of_map _) fun e he => ?_
  have hget := hrest.get?_key he
  rw [Table.get?_erase] at hget
  split at hget
  · cases hget
  · rename_i hne
    rw [Table.get?_insert, if_neg hne] at hget
    exact (Table.mem_values_iff hf.ordered).2 ⟨_, hget⟩

theorem Leaves.sublist (h : Leaves budget now index kept) : kept.Sublist index := by
  cases h with
  | all => exact List.Sublist.refl _
  | live => exact unexpired_sublist
  | rest => exact without_sublist.trans unexpired_sublist

/-- A beginning of a list has an element when it is longer than what stands before it. -/
theorem mem_take_append_cons {α : Type} {before after : List α} {a : α} (h : a ∉ before) (m : Nat) :
    a ∈ (before ++ a :: after).take m ↔ before.length < m := by
  rw [List.take_append, List.mem_append]
  rcases Nat.lt_or_ge before.length m with hlt | hge
  · obtain ⟨d, hd⟩ := Nat.exists_eq_succ_of_ne_zero (Nat.sub_ne_zero_of_lt hlt)
    simp [hd, hlt]
  · have hnone : a ∉ before.take m := fun hin => h (List.mem_of_mem_take hin)
    simp [Nat.sub_eq_zero_of_le hge, hnone, hge.not_gt]

variable (hf : Filed index) {new : Entry} (hnew : new ∈ index.values) (hbig : budget < new.size)
  (hothers : Entry.totalSize (index.erase new.key).values ≤ budget)
include hf hnew hbig hothers

/-- When all but one entry fits, entries fit if that one is not among them. -/
theorem totalSize_le_iff_notMem {entries : List Entry} (hsub : entries.Subperm index.values) :
    Entry.totalSize entries ≤ budget ↔ new ∉ entries := by
  have hwhole := Entry.totalSize_erase hf.ordered (hf.get?_key hnew)
  constructor
  · intro hle hmem
    have hsingle := Entry.totalSize_subperm (List.singleton_subperm_iff.2 hmem)
    simp only [Entry.totalSize] at hsingle
    omega
  · intro hmem
    have hboth := Entry.totalSize_subperm (List.cons_subperm_of_not_mem_of_mem hmem hnew hsub)
    simp only [Entry.totalSize] at hboth
    omega

/-- **An entry longer than the budget does not stay**, and takes with it what stands before it in
the order of eviction, unless it is expired itself. -/
theorem Leaves.oversized (h : Leaves budget now index kept) :
    new ∉ kept.values ∧ ∀ e ∈ index.values, e ≠ new → ¬e.Expired now →
      (e ∈ kept.values ↔ new.Expired now ∨ ¬e.UsedBefore new) := by
  have hfits : ∀ {rest : Table Entry}, rest.Sublist index →
      (Entry.totalSize rest.values ≤ budget ↔ new ∉ rest.values) := fun hsub =>
    totalSize_le_iff_notMem hf hnew hbig hothers (hsub.map Prod.snd).subperm
  have hkept := hfits h.sublist
  cases h with
  | all hle => exact absurd hnew (hkept.1 hle)
  | live _ hle =>
    have hexpired : new.Expired now := by
      by_contra hfresh
      exact hkept.1 hle (mem_unexpired.2 ⟨hnew, hfresh⟩)
    exact ⟨hkept.1 hle, fun e he _ hfresh =>
      ⟨fun _ => Or.inl hexpired, fun _ => mem_unexpired.2 ⟨he, hfresh⟩⟩⟩
  | rest order n _ hover hperm horder hle hleast =>
    have hmem : new ∈ (unexpired index now).values := by
      by_contra hmem
      exact hover.not_ge ((hfits unexpired_sublist).2 hmem)
    obtain ⟨before, after, rfl⟩ := List.append_of_mem (hperm.mem_iff.2 hmem)
    have hbefore : new ∉ before := fun hin => by
      have hsplit := List.nodup_append.1 (Entry.nodup_of_pairwise horder)
      exact hsplit.2.2 new hin new List.mem_cons_self rfl
    -- the rest fits from the entry on, so the eviction stops right after it
    have htake : ∀ m, Entry.totalSize (without (unexpired index now)
        ((before ++ new :: after).take m)).values ≤ budget ↔ before.length < m := fun m => by
      rw [hfits (without_sublist.trans unexpired_sublist), mem_without, not_and, not_not,
        forall_prop_of_true hmem, mem_take_append_cons hbefore]
    have hn : n = before.length + 1 := by
      have hlast := (htake n).1 hle
      by_contra hne
      exact (hleast (before.length + 1) (by omega)).not_ge ((htake _).2 (Nat.lt_succ_self _))
    subst hn
    refine ⟨hkept.1 hle, fun e he hne hfresh => ?_⟩
    have hlive := mem_unexpired.2 ⟨he, hfresh⟩
    have hcut : (before ++ new :: after).take (before.length + 1) = before ++ [new] :=
      List.take_length_add_append 1
    rw [mem_without, hcut, List.mem_append, List.mem_singleton,
      Entry.mem_before_iff horder (hperm.mem_iff.2 hlive) hne]
    simp only [hlive, hne, or_false, true_and, (mem_unexpired.1 hmem).2, false_or]

/-- The same by key: what the index has in the end. -/
theorem Leaves.get?_oversized (h : Leaves budget now index kept) :
    kept.get? new.key = none ∧ ∀ k e, k ≠ new.key → index.get? k = some e → ¬e.Expired now →
      kept.get? k = if ¬new.Expired now ∧ e.UsedBefore new then none else some e := by
  obtain ⟨hgone, hrest⟩ := h.oversized hf hnew hbig hothers
  have hentry : ∀ k e, kept.get? k = some e ↔ index.get? k = some e ∧ e ∈ kept.values :=
    fun k e => get?_sublist hf h.sublist
  refine ⟨?_, fun k e hne he hfresh => ?_⟩
  · refine Option.eq_none_iff_forall_ne_some.2 fun e he => ?_
    obtain ⟨he, hmem⟩ := (hentry _ _).1 he
    rw [hf.get?_key hnew, Option.some.injEq] at he
    exact hgone (he ▸ hmem)
  · have hdiffers : e ≠ new := by
      rintro rfl
      exact hne (hf.key_eq he).symm
    have hstays := hrest e ((Table.mem_values_iff hf.ordered).2 ⟨k, he⟩) hdiffers hfresh
    split
    · refine Option.eq_none_iff_forall_ne_some.2 fun e' he' => ?_
      obtain ⟨hsame, hmem⟩ := (hentry _ _).1 he'
      obtain rfl := Option.some.inj (he.symm.trans hsame)
      have hstay := hstays.1 hmem
      tauto
    · refine (hentry _ _).2 ⟨he, hstays.2 ?_⟩
      tauto

end Oversized

/-- **A payload longer than the budget** is not kept, and what it takes with it is settled. Let it
be written in a reachable cache that keeps its budget, and every deletion of the call succeed. Then
the answer is false. Every other entry that is not expired stays and is read as before, with one
exception: when the new entry is not expired from the start, an entry goes that was never asked for
and is older, or as old with a smaller key. -/
theorem store_oversized (hc : c.Reachable) {held : M → String → Option Bytes}
    (hshows : Medium.Shows held) (hfits : c.totalSize ≤ c.settings.budget)
    (hbig : c.settings.budget < payload.length)
    (hw : (Medium.write c.medium key payload).1 = .ok ())
    (hdeleted : ∀ d ∈ c.storeDeletions key payload lifetime kind now, d.2 = true) :
    let stored := c.store key payload lifetime kind now
    stored.1 = false ∧ ∀ k e, k ≠ key → c.index.get? k = some e → ¬e.Expired now →
      if ¬(newEntry c.settings key payload lifetime kind now).Expired now ∧ e.accesses = 0 ∧
          (e.lastAccess < now ∨ e.lastAccess = now ∧ k < key) then
        stored.2.index.get? k = none ∧ held stored.2.medium k = none
      else
        stored.2.index.get? k = some e ∧ ∀ later, ¬e.Expired later →
          (∃ found, (Medium.read stored.2.medium k).1 = .ok found) →
            (stored.2.get k later).1 = held c.medium k := by
  intro stored
  set new := newEntry c.settings key payload lifetime kind now with hnewEntry
  have hleaves := leaves_store_index hc hw hdeleted
  have hheld := held_store hc hw hdeleted hshows
  rw [← hnewEntry] at hleaves hheld
  have hf : Filed (c.index.insert key new) := hc.filed.insert rfl
  have hget : (c.index.insert key new).get? key = some new := by
    rw [Table.get?_insert, if_pos rfl]
  have hothers : Entry.totalSize ((c.index.insert key new).erase key).values ≤ c.settings.budget :=
    (Entry.totalSize_subperm (subperm_erase_insert hc.filed new)).trans hfits
  obtain ⟨hgone, hrest⟩ := hleaves.get?_oversized hf
    ((Table.mem_values_iff hf.ordered).2 ⟨key, hget⟩) hbig hothers
  refine ⟨?_, fun k e hne he hfresh => ?_⟩
  · have hnot : stored.2.index.contains key = false := by
      rw [Table.contains, show stored.2.index.get? key = none from hgone]
      rfl
    rw [Bool.eq_false_iff, Ne, store_fst_iff hw, hnot]
    exact Bool.false_ne_true
  have hhas : (c.index.insert key new).get? k = some e := by
    rw [Table.get?_insert, if_neg (Ne.symm hne), he]
  have hk : stored.2.index.get? k =
      if ¬new.Expired now ∧ e.UsedBefore new then none else some e := hrest k e hne hhas hfresh
  have hpayload : held stored.2.medium k =
      if ¬new.Expired now ∧ e.UsedBefore new then none else held c.medium k := by
    refine (hheld k).trans ?_
    rw [Table.contains, Table.contains, hhas, show (c.store _ _ _ _ _).2.index.get? k = _ from hk,
      Function.update_of_ne hne]
    split <;> simp
  simp only [Entry.usedBefore_newEntry_iff, hnewEntry, hc.filed.key_eq he] at hk hpayload
  split <;> rename_i hgoes
  · exact ⟨hk.trans (if_pos hgoes), hpayload.trans (if_pos hgoes)⟩
  · have hkept := hk.trans (if_neg hgoes)
    refine ⟨hkept, fun later hlater hread => ?_⟩
    rw [get_eq_held hshows hkept hlater hread, hpayload, if_neg hgoes]

theorem crowded_storeDeletions : ∀ d ∈ crowded.storeDeletions "d" (List.replicate 11 0) none
    "general" ⟨6, 0⟩, d.2 = true := by
  rw [storeDeletions_eq rfl, crowded_keepBudget _ (by decide)]
  decide +kernel

/-- A payload of eleven bytes for a budget of ten: an entry that was not asked for goes with it, and
the one that was asked for stays. -/
theorem store_oversized_crowded :
    let stored := crowded.store "d" (List.replicate 11 0) none "general" ⟨6, 0⟩
    stored.1 = false ∧ stored.2.index.get? "b" = none ∧
      (stored.2.get "a" ⟨7, 0⟩).1 = some [1, 1, 1] := by
  intro stored
  obtain ⟨hanswer, hothers⟩ := store_oversized (c := crowded) ⟨_, _, _, _, rfl⟩
    FaithfulMedium.shows (by decide +kernel) (by decide +kernel) rfl crowded_storeDeletions
  have ha : crowded.index.get? "a" =
      some ⟨"a", ⟨2, 0⟩, ⟨62, 0⟩, 3, "general", 1, ⟨5, 0⟩⟩ := rfl
  have hgone := hothers "b" _ (by decide +kernel) crowded_get?_b (by decide +kernel)
  have hkept := hothers "a" _ (by decide +kernel) ha (by decide +kernel)
  rw [if_pos (by decide +kernel)] at hgone
  rw [if_neg (by decide +kernel)] at hkept
  exact ⟨hanswer, hgone.1, hkept.2 ⟨7, 0⟩ (by decide +kernel) ⟨_, rfl⟩⟩

/-- A payload that is not kept is not without effect: another one, which was kept, is lost, even
though nothing fails. -/
theorem not_store_keeps_others :
    ¬∀ (c : Cache Memory) (key : String) (payload : Bytes) (now : Instant), c.Reachable →
      c.totalSize ≤ c.settings.budget → c.settings.budget < payload.length →
      (Medium.write c.medium key payload).1 = .ok () →
      (∀ d ∈ c.storeDeletions key payload none "general" now, d.2 = true) →
      ∀ k e, k ≠ key → c.index.get? k = some e → ¬e.Expired now →
        (c.store key payload none "general" now).2.index.get? k = some e := by
  intro h
  have hlost : (crowded.store "d" (List.replicate 11 0) none "general" ⟨6, 0⟩).2.index.get? "b" =
      none := by
    rw [store_index rfl, crowded_keepBudget _ (by decide)]
    rfl
  have hkept := h crowded "d" (List.replicate 11 0) ⟨6, 0⟩ ⟨_, _, _, _, rfl⟩ (by decide +kernel)
    (by decide +kernel) rfl crowded_storeDeletions "b" _ (by decide +kernel) crowded_get?_b
    (by decide +kernel)
  exact Option.some_ne_none _ (hkept.symm.trans hlost)

end Store

end Cache

end GraphReasoner
