import GraphReasoner.Cache.Payload
import GraphReasoner.Proofs.Table
import Mathlib.Logic.Relation

/-!
# What the operations of a cache do to its index

Nothing here asks what a medium does with its calls: each may succeed or fail. A deletion is the one
call whose result decides what becomes of an entry, so `GraphReasoner.Cache.drop_cases` says once
what `GraphReasoner.Cache.drop` can do. The purge and the eviction are runs of drops
(`GraphReasoner.Cache.Drops`), and what a drop keeps, they keep.

Between two operations the index is *filed* (`GraphReasoner.Cache.Filed`): its keys ascend and every
entry lies under its own key. This is what lets a loop over entries speak of keys.
-/

namespace GraphReasoner

open GraphReasoner.Time (Instant Duration)
open Relation (ReflTransGen)

namespace Cache

variable {M : Type} [Medium M] (c : Cache M) (key : String) (now : Instant)

/-! ### Saving -/

@[simp] theorem persist_index : c.persist.index = c.index := by
  unfold persist
  split <;> rfl

@[simp] theorem persist_settings : c.persist.settings = c.settings := by
  unfold persist
  split <;> rfl

theorem persist_medium :
    c.persist.medium = (Medium.saveIndex c.medium c.index.values).2 := by
  unfold persist
  split <;> rename_i h <;> rw [h]

@[simp] theorem flush_index : c.flush.index = c.index := by
  unfold flush
  split
  · exact persist_index c
  · rfl

@[simp] theorem flush_settings : c.flush.settings = c.settings := by
  unfold flush
  split
  · exact persist_settings c
  · rfl

/-! ### Dropping -/

/-- **A deletion decides.** If it succeeds the entry goes, if it fails the entry stays. -/
theorem drop_cases :
    (∃ m, Medium.delete c.medium key = (.ok (), m) ∧
      c.drop key = (true, { c with medium := m, index := c.index.erase key })) ∨
    ∃ error m, Medium.delete c.medium key = (.error error, m) ∧
      c.drop key = (false, { c with medium := m }) := by
  unfold drop
  rcases h : Medium.delete c.medium key with ⟨error | ⟨⟩, m⟩
  · exact Or.inr ⟨error, m, rfl, rfl⟩
  · exact Or.inl ⟨m, rfl, rfl⟩

@[simp] theorem drop_settings : (c.drop key).2.settings = c.settings := by
  rcases drop_cases c key with ⟨m, -, h⟩ | ⟨error, m, -, h⟩ <;> rw [h]

theorem drop_index : (c.drop key).2.index =
    if (c.drop key).1 then c.index.erase key else c.index := by
  rcases drop_cases c key with ⟨m, -, h⟩ | ⟨error, m, -, h⟩ <;> rw [h] <;> rfl

/-- A drop only takes entries away. -/
theorem drop_index_sublist : (c.drop key).2.index.Sublist c.index := by
  rw [drop_index]
  split
  · exact List.filter_sublist
  · exact List.Sublist.refl _

variable {c}

/-- **Dropping one key after another**: what the purge, the eviction and every other loop over
entries comes down to. -/
abbrev Drops : Cache M → Cache M → Prop :=
  ReflTransGen fun c c' => ∃ key, c' = (c.drop key).2

namespace Drops

variable {c' : Cache M}

theorem settings (h : Drops c c') : c'.settings = c.settings := by
  induction h with
  | refl => rfl
  | tail _ hstep ih =>
    obtain ⟨key, rfl⟩ := hstep
    exact (drop_settings _ key).trans ih

theorem index_sublist (h : Drops c c') : c'.index.Sublist c.index := by
  induction h with
  | refl => exact List.Sublist.refl _
  | tail _ hstep ih =>
    obtain ⟨key, rfl⟩ := hstep
    exact (drop_index_sublist _ key).trans ih

end Drops

variable (c)

theorem drops_dropAll (keys : List String) : Drops c (c.dropAll keys) := by
  induction keys generalizing c with
  | nil => exact ReflTransGen.refl
  | cons key keys ih => exact ReflTransGen.head ⟨key, rfl⟩ (ih (c.drop key).2)

theorem drops_purge : Drops c (c.purge now) :=
  drops_dropAll c _

/-! ### Evicting -/

theorem evict_cons (total : Nat) (e : Entry) (entries : List Entry) :
    c.evict total (e :: entries) =
      if total ≤ c.settings.budget then c
      else if (c.drop e.key).1 then (c.drop e.key).2.evict (total - e.size) entries
      else (c.drop e.key).2.evict total entries := by
  rw [evict]
  rcases h : c.drop e.key with ⟨_ | _, c'⟩ <;> simp

theorem drops_evict (total : Nat) (entries : List Entry) : Drops c (c.evict total entries) := by
  induction entries generalizing c total with
  | nil => exact ReflTransGen.refl
  | cons e entries ih =>
    rw [evict_cons]
    split
    · exact ReflTransGen.refl
    · split <;> exact ReflTransGen.head ⟨e.key, rfl⟩ (ih _ _)

theorem drops_keepBudget : Drops c (c.keepBudget now) := by
  unfold keepBudget
  split
  · exact ReflTransGen.refl
  · exact (drops_purge c now).trans (drops_evict _ _ _)

/-! ### Storing -/

/-- The cache once a payload is written and its entry put into the index. -/
def written (payload : Bytes) (lifetime : Option Duration) (kind : String) : Cache M :=
  { c with
    medium := (Medium.write c.medium key payload).2
    index := c.index.insert key (newEntry c.settings key payload lifetime kind now) }

/-- **A write decides.** If it succeeds the entry is put into the index and the budget is kept, if
it fails the index is as before. -/
theorem store_cases (payload : Bytes) (lifetime : Option Duration) (kind : String) :
    ((Medium.write c.medium key payload).1 = .ok () ∧
      c.store key payload lifetime kind now =
        (((c.written key now payload lifetime kind).keepBudget now).index.contains key,
          ((c.written key now payload lifetime kind).keepBudget now).persist)) ∨
    ∃ error, (Medium.write c.medium key payload).1 = .error error ∧
      c.store key payload lifetime kind now =
        (false, { c with medium := (Medium.write c.medium key payload).2 }) := by
  unfold store
  rcases h : Medium.write c.medium key payload with ⟨error | ⟨⟩, m⟩
  · exact Or.inr ⟨error, rfl, rfl⟩
  · refine Or.inl ⟨rfl, ?_⟩
    simp only [written, h, persist_index]

variable {c key now} in
/-- Storing a payload that is written. -/
theorem store_of_write {payload : Bytes} {lifetime : Option Duration} {kind : String}
    (hw : (Medium.write c.medium key payload).1 = .ok ()) :
    c.store key payload lifetime kind now =
      (((c.written key now payload lifetime kind).keepBudget now).index.contains key,
        ((c.written key now payload lifetime kind).keepBudget now).persist) := by
  rcases store_cases c key now payload lifetime kind with ⟨-, hs⟩ | ⟨error, he, -⟩
  · exact hs
  · cases hw.symm.trans he

/-! ### The filed index -/

/-- The keys of the index ascend, and every entry lies under its own key. -/
structure Filed (index : Table Entry) : Prop where
  ordered : index.Ordered
  own : ∀ item ∈ index, item.2.key = item.1

namespace Filed

variable {index : Table Entry} {c key now}

theorem nil : Filed [] :=
  ⟨List.Pairwise.nil, fun _ h => nomatch h⟩

theorem sublist {rest : Table Entry} (h : Filed index) (hs : rest.Sublist index) : Filed rest :=
  ⟨h.ordered.sublist hs, fun item hi => h.own item (hs.subset hi)⟩

theorem insert {e : Entry} (h : Filed index) (he : e.key = key) :
    Filed (index.insert key e) := by
  refine ⟨h.ordered.insert key e, fun item hi => ?_⟩
  rcases Table.mem_insert hi with rfl | hi
  · exact he
  · exact h.own item hi

theorem key_eq {e : Entry} (h : Filed index) (he : index.get? key = some e) : e.key = key :=
  h.own _ (Table.mem_of_get? he)

theorem get?_key {e : Entry} (h : Filed index) (he : e ∈ index.values) :
    index.get? e.key = some e := by
  obtain ⟨k, hk⟩ := (Table.mem_values_iff h.ordered).1 he
  rw [h.key_eq hk]
  exact hk

/-- Entries of a filed index do not share keys. -/
theorem values_keys_nodup (h : Filed index) : (index.values.map Entry.key).Nodup := by
  have hkeys : index.values.map Entry.key = index.keys := by
    rw [Table.values, Table.keys, List.map_map]
    exact List.map_congr_left fun item hi => h.own item hi
  rw [hkeys]
  exact h.ordered.keys_nodup

theorem insertAll {entries : List (String × Entry)} (h : Filed index)
    (he : ∀ item ∈ entries, item.2.key = item.1) : Filed (index.insertAll entries) := by
  induction entries generalizing index with
  | nil => exact h
  | cons item entries ih =>
    exact ih (h.insert (he item List.mem_cons_self)) fun i hi => he i (List.mem_cons_of_mem _ hi)

theorem table (entries : List Entry) : Filed (Entry.table entries) := by
  refine nil.insertAll fun item hi => ?_
  obtain ⟨e, -, rfl⟩ := List.mem_map.1 hi
  rfl

end Filed

end Cache

end GraphReasoner
