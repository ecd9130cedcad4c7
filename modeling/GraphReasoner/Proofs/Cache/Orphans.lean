import GraphReasoner.Proofs.Cache.Faithful
import Mathlib.Data.List.Induction

/-!
# Payloads without an entry

A payload that no entry knows is out of reach: it is not counted against the budget, and neither the
purge nor the eviction will delete it. `GraphReasoner.Cache.drop` avoids this by deleting the
payload first and keeping the entry when that fails. The purge, the eviction, a look-up and a
removal go through it, and none of them leaves an orphan.

`GraphReasoner.Cache.clear` does not. It forgets the whole index whether or not the medium could be
cleared, so a medium that refuses the call keeps all its payloads and the index has none of them.
This is the only way in which an orphan comes about. It stays one until its key is written or
deleted again or the medium is cleared with success, and `GraphReasoner.Cache.orphan_run_iff` says
so for every run.
-/

namespace GraphReasoner

open GraphReasoner.Time (Instant Duration)
open FaithfulMedium (held)

theorem Table.contains_insertAll {V : Type} (t : Table V) (entries : List (String × V))
    (key : String) :
    (t.insertAll entries).contains key = true ↔
      t.contains key = true ∨ key ∈ entries.map Prod.fst := by
  induction entries generalizing t with
  | nil => simp [insertAll]
  | cons entry entries ih =>
    refine (ih (t.insert entry.1 entry.2)).trans ?_
    simp only [contains, get?_insert, List.map_cons, List.mem_cons]
    by_cases hkey : entry.1 = key
    · simp [hkey]
    · simp [hkey, Ne.symm hkey]

namespace Cache

variable {M : Type} [FaithfulMedium M] {c : Cache M} {k key : String} {payload : Bytes}

/-- **An orphan**: a payload that the medium holds and no entry knows. -/
def Orphan (c : Cache M) (k : String) (payload : Bytes) : Prop :=
  held c.medium k = some payload ∧ c.index.get? k = none

/-! ### What drops do to orphans -/

@[simp] theorem orphan_persist : c.persist.Orphan k payload ↔ c.Orphan k payload := by
  unfold Orphan
  rw [persist_index, persist_medium, FaithfulMedium.held_saveIndex]

/-- A drop makes no orphan, and ends one if its payload is deleted. -/
theorem orphan_drop : (c.drop key).2.Orphan k payload ↔
    c.Orphan k payload ∧ ((c.drop key).1 = true → k ≠ key) := by
  unfold Orphan
  rcases drop_faithful c key with ⟨hok, hindex, hheld⟩ | ⟨hfailed, hindex, hheld⟩ <;>
    rw [hindex, hheld]
  · rw [Table.get?_erase]
    by_cases hk : k = key
    · subst hk
      simp [hok]
    · rw [Function.update_of_ne hk, if_neg (Ne.symm hk)]
      simp [hk]
  · simp [hfailed]

theorem Drops.orphan {c' : Cache M} (hd : Drops c c') (h : c'.Orphan k payload) :
    c.Orphan k payload := by
  induction hd with
  | refl => exact h
  | tail _ hstep ih =>
    obtain ⟨key, rfl⟩ := hstep
    exact ih (orphan_drop.1 h).1

namespace Orphan

theorem drop (h : c.Orphan k payload) (hk : k ≠ key) : (c.drop key).2.Orphan k payload :=
  orphan_drop.2 ⟨h, fun _ => hk⟩

theorem dropAll (h : c.Orphan k payload) {keys : List String} (hk : k ∉ keys) :
    (c.dropAll keys).Orphan k payload := by
  induction keys generalizing c with
  | nil => exact h
  | cons key keys ih =>
    obtain ⟨hne, hrest⟩ := List.ne_and_not_mem_of_not_mem_cons hk
    exact ih (h.drop hne) hrest

theorem evict (h : c.Orphan k payload) {total : Nat} {entries : List Entry}
    (hk : ∀ e ∈ entries, k ≠ e.key) : (c.evict total entries).Orphan k payload := by
  induction entries generalizing c total with
  | nil => exact h
  | cons e entries ih =>
    obtain ⟨hne, hrest⟩ := List.forall_mem_cons.1 hk
    rw [evict_cons]
    split
    · exact h
    · split <;> exact ih (h.drop hne) hrest

/-- The key of an orphan is not that of an entry. -/
theorem ne_key (h : c.Orphan k payload) (hf : Filed c.index) {e : Entry}
    (he : e ∈ c.index.values) : k ≠ e.key := by
  rintro rfl
  have hentry := hf.get?_key he
  rw [h.2] at hentry
  cases hentry

theorem purge (h : c.Orphan k payload) (hf : Filed c.index) (now : Instant) :
    (c.purge now).Orphan k payload := by
  refine h.dropAll fun hk => ?_
  obtain ⟨e, he, rfl⟩ := List.mem_map.1 hk
  exact h.ne_key hf (List.mem_filter.1 he).1 rfl

/-- **The budget is kept without touching an orphan.** -/
theorem keepBudget (h : c.Orphan k payload) (hf : Filed c.index) (now : Instant) :
    (c.keepBudget now).Orphan k payload := by
  unfold Cache.keepBudget
  split
  · exact h
  · have hpurged : Filed (c.purge now).index := hf.sublist (drops_purge c now).index_sublist
    refine (h.purge hf now).evict fun e he => (h.purge hf now).ne_key hpurged ?_
    exact (List.mergeSort_perm _ Entry.lessUsed).mem_iff.1 he

end Orphan

/-! ### What an operation does to orphans -/

/-- **A clearing that fails over a payload**: the medium refuses it and holds the payload on. -/
def FailsToClear (k : String) (payload : Bytes) (c : Cache M) (op : Operation) : Prop :=
  op = .clear ∧ (∃ error, (Medium.clear c.medium).1 = .error error) ∧
    held c.medium k = some payload

/-- **An operation ends an orphan** when a payload is written under its key, when its payload is
deleted, or when the medium is cleared. -/
def EndsOrphan (k : String) (c : Cache M) : Operation → Prop
  | .store key payload _ _ _ => key = k ∧ (Medium.write c.medium key payload).1 = .ok ()
  | .remove key => key = k ∧ (c.drop key).1 = true
  | .clear => (Medium.clear c.medium).1 = .ok ()
  | .get .. | .contains .. | .entry _ | .size | .statistics _ | .flush => False

/-- A look-up leaves orphans alone and makes none. -/
theorem orphan_get (c : Cache M) (key : String) (now : Instant) :
    (c.get key now).2.Orphan k payload ↔ c.Orphan k payload := by
  have hread := FaithfulMedium.held_read c.medium key
  rcases get_cases c key now with ⟨hg, -⟩ | ⟨e, he, ⟨-, hg⟩ | ⟨-, hrest⟩⟩
  · rw [hg]
  · rw [hg, orphan_persist, orphan_drop]
    refine and_iff_left_of_imp fun h _ hk => ?_
    rw [← hk, h.2] at he
    cases he
  rcases hrest with ⟨found, m, hm, hg⟩ | ⟨m, hm, hg⟩ | ⟨error, m, hm, hg⟩ <;>
    rw [hg] <;> rw [hm] at hread
  · -- a hit changes the entry of a key that has one
    unfold Orphan
    rw [hread, Table.get?_insert]
    by_cases hk : key = k
    · subst hk
      simp [he]
    · rw [if_neg hk]
  · -- an entry is forgotten because its payload is gone, so there is nothing to be orphaned
    rw [orphan_persist]
    unfold Orphan
    rw [hread, Table.get?_erase]
    by_cases hk : key = k
    · subst hk
      have hnone : none = held c.medium key := FaithfulMedium.read_ok (by rw [hm])
      simp [← hnone]
    · rw [if_neg hk]
  · unfold Orphan
    rw [hread]

theorem orphan_store (hf : Filed c.index) (stored : Bytes) (lifetime : Option Duration)
    (kind : String) (now : Instant) :
    (c.store key stored lifetime kind now).2.Orphan k payload ↔
      c.Orphan k payload ∧ ¬(key = k ∧ (Medium.write c.medium key stored).1 = .ok ()) := by
  rcases store_cases c key now stored lifetime kind with ⟨hw, hs⟩ | ⟨error, hw, hs⟩ <;> rw [hs, hw]
  · -- the written payload has an entry, and both go together if they go
    have hwritten : (c.written key now stored lifetime kind).Orphan k payload ↔
        c.Orphan k payload ∧ key ≠ k := by
      unfold Orphan written
      rw [FaithfulMedium.held_write_ok hw, Table.get?_insert]
      by_cases hk : key = k
      · simp [hk]
      · rw [if_neg hk, Function.update_of_ne (Ne.symm hk)]
        simp [hk]
    rw [orphan_persist]
    constructor
    · intro h
      obtain ⟨hold, hk⟩ := hwritten.1 ((drops_keepBudget _ now).orphan h)
      exact ⟨hold, fun hkey => hk hkey.1⟩
    · rintro ⟨hold, hk⟩
      exact (hwritten.2 ⟨hold, fun hkey => hk ⟨hkey, rfl⟩⟩).keepBudget
        (hf.written key now stored lifetime kind) now
  · unfold Orphan
    rw [FaithfulMedium.held_write_error hw]
    simp

/-- After a clearing nothing has an entry, so what is held is orphaned. -/
theorem orphan_clear : c.clear.Orphan k payload ↔
    held c.medium k = some payload ∧ ∃ error, (Medium.clear c.medium).1 = .error error := by
  have hheld : held c.clear.medium = held (Medium.clear c.medium).2 := by
    rw [clear, persist_medium, FaithfulMedium.held_saveIndex]
  unfold Orphan
  rw [clear_index, hheld]
  rcases hc : (Medium.clear c.medium).1 with error | ⟨⟩
  · rw [FaithfulMedium.held_clear_error hc]
    simp [Table.get?]
  · rw [FaithfulMedium.held_clear_ok hc]
    simp

/-- **Only a failing clearing makes an orphan.** Any other operation leaves the orphans that are
there, up to those it ends. -/
theorem orphan_perform (hf : Filed c.index) {op : Operation} :
    (c.perform op).2.Orphan k payload ↔
      FailsToClear k payload c op ∨ c.Orphan k payload ∧ ¬EndsOrphan k c op := by
  cases op with
  | get key now => simpa [FailsToClear, EndsOrphan, perform] using orphan_get c key now
  | store key stored lifetime kind now =>
    simpa [FailsToClear, EndsOrphan, perform] using orphan_store hf stored lifetime kind now
  | remove key =>
    change (c.remove key).2.Orphan k payload ↔ _
    rw [remove_snd, orphan_persist, orphan_drop]
    simp only [FailsToClear, EndsOrphan, reduceCtorEq, false_and, false_or, not_and]
    exact and_congr_right fun _ => ⟨fun h hk hok => h hok hk.symm, fun h hok hk => h hk.symm hok⟩
  | clear =>
    refine orphan_clear.trans ?_
    simp only [FailsToClear, EndsOrphan, Orphan, true_and]
    constructor
    · rintro ⟨hheld, herror⟩
      exact Or.inl ⟨herror, hheld⟩
    · rintro (⟨herror, hheld⟩ | ⟨⟨hheld, -⟩, hfailed⟩)
      · exact ⟨hheld, herror⟩
      · rcases hc : (Medium.clear c.medium).1 with error | ⟨⟩
        · exact ⟨hheld, error, rfl⟩
        · exact absurd hc hfailed
  | flush =>
    have hflush : c.flush.Orphan k payload ↔ c.Orphan k payload := by
      unfold flush
      split
      · exact orphan_persist
      · exact Iff.rfl
    simpa [FailsToClear, EndsOrphan, perform] using hflush
  | contains | entry | size | statistics => simp [FailsToClear, EndsOrphan, perform]

/-! ### Runs -/

/-- Opening a cache orphans nothing that the saved index knows. -/
theorem not_orphan_openOn {medium : M} {entries : List Entry}
    (hload : (Medium.loadIndex medium).1 = .ok entries)
    (hknown : ∀ k payload, held medium k = some payload → k ∈ entries.map Entry.key)
    (settings : CacheSettings) (start : Instant) :
    ¬(openOn medium settings start).Orphan k payload := by
  intro h
  rw [openOn, orphan_persist] at h
  obtain ⟨hheld, hnone⟩ := (drops_purge _ start).orphan h
  have hopened : held (Medium.loadIndex medium).2 k = some payload := hheld
  rw [FaithfulMedium.held_loadIndex] at hopened
  rw [hload] at hnone
  have hindexed : (Entry.table entries).contains k = true := by
    refine (Table.contains_insertAll [] _ k).2 (Or.inr ?_)
    simpa [Function.comp_def] using hknown k payload hopened
  obtain ⟨e, he⟩ := Table.contains_iff.1 hindexed
  exact Option.some_ne_none e (he.symm.trans hnone)

/-- **Orphans come from clearings that fail, and from nothing else.** A cache is opened over a
medium whose payloads all have an entry in the saved index, and any call of the medium may fail
after that. Then a payload is an orphan at the end of a run exactly when the medium refused a
clearing while it held the payload, and no operation since then has written its key, deleted it or
cleared the medium. So an entry is left for every payload as long as no clearing fails. -/
theorem orphan_run_iff {medium : M} {entries : List Entry}
    (hload : (Medium.loadIndex medium).1 = .ok entries)
    (hknown : ∀ k payload, held medium k = some payload → k ∈ entries.map Entry.key)
    (settings : CacheSettings) (start : Instant) (ops : List Operation) (k : String)
    (payload : Bytes) :
    ((openOn medium settings start).run ops).Orphan k payload ↔
      (openOn medium settings start).Since (FailsToClear k payload) (EndsOrphan k) ops := by
  have hf := filed_openOn medium settings start
  induction ops using List.reverseRecOn with
  | nil => exact iff_of_false (not_orphan_openOn hload hknown settings start) not_since_nil
  | append_singleton ops op ih =>
    rw [run_concat, orphan_perform (hf.run ops), since_concat]
    exact or_congr_right (and_congr_left' ih)

/-- A run over a medium that refuses the fifth call, which is the clearing, and with it a payload
that stays without an entry. -/
theorem orphan_run_clear_refused :
    ((openOn (.make .empty fun n _ => n == 4 : Unreliable Memory) ⟨100, 60⟩ ⟨0, 0⟩).run
      [.store "k" [1] none "general" ⟨1, 0⟩, .clear]).Orphan "k" [1] := by
  have hload : (Medium.loadIndex (.make .empty fun n _ => n == 4 : Unreliable Memory)).1 = .ok [] :=
    rfl
  refine (orphan_run_iff hload (fun k payload h => ?_) ⟨100, 60⟩ ⟨0, 0⟩ _ "k" [1]).2
    ⟨[.store "k" [1] none "general" ⟨1, 0⟩], .clear, [], rfl, ⟨rfl, ⟨.database, ?_⟩, ?_⟩,
      fun middle later rest heq => by simp at heq⟩
  · cases h
  · rfl
  · rfl

end Cache

end GraphReasoner
