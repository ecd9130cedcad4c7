import GraphReasoner.Proofs.Cache.Deletions
import GraphReasoner.Proofs.Cache.Latest

/-!
# A cache that is closed and opened again

The index on the medium is a copy, and a cache that is not dirty says that the copy is exact. It
never says so wrongly (`GraphReasoner.Cache.Reachable.copied`): a hit changes the index and sets the
flag, every other change ends with saving, and saving clears the flag only if it succeeds. Nothing
is asked of the other calls: a failing `GraphReasoner.Cache.clear` may leave anything behind.

A cache flushes its index when it is closed. If that succeeds, or there was nothing to flush,
opening the medium again finds the very index that was in memory, hits included, and drops what has
expired meanwhile. The one thing that can still go wrong is loading it: an index that cannot be
loaded counts as empty.

* `GraphReasoner.Cache.Reachable.reopened` – both together.
-/

namespace GraphReasoner

open GraphReasoner.Time (Instant)
open LastingMedium (held saved)

namespace Cache

variable {M : Type}

/-! ### What opening deletes -/

section Record

variable [Medium M]

/-- The deletions that opening a medium tries, the latest first, with whether they succeed. -/
def openDeletions (medium : M) (settings : CacheSettings) (now : Instant) : List (String × Bool) :=
  (openOn (⟨medium, []⟩ : Recorded M) settings now).medium.deletions

/-- The cache over a medium once an index is loaded and before what is expired is dropped. -/
def loaded (medium : M) (settings : CacheSettings) (index : Table Entry) : Cache M :=
  { medium := (Medium.loadIndex medium).2, index, settings, dirty := false }

/-- **Loading decides.** If it succeeds its entries are the index, if it fails there are none. -/
theorem openOn_cases (medium : M) (settings : CacheSettings) (now : Instant) :
    (∃ entries, (Medium.loadIndex medium).1 = .ok entries ∧
      openOn medium settings now =
        ((loaded medium settings (Entry.table entries)).purge now).persist) ∨
    ∃ error, (Medium.loadIndex medium).1 = .error error ∧
      openOn medium settings now = ((loaded medium settings []).purge now).persist := by
  unfold openOn loaded
  rcases Medium.loadIndex medium with ⟨error | entries, m⟩
  · exact Or.inr ⟨error, rfl, rfl⟩
  · exact Or.inl ⟨entries, rfl, rfl⟩

end Record

variable [LastingMedium M] {c : Cache M}

/-! ### The copy of the index -/

/-- **A truthful flag**: unless the cache is dirty, its index is the saved one. -/
def Copied (c : Cache M) : Prop :=
  c.dirty = false → (∀ e ∈ c.index.values, e.Decodes) → saved c.medium = some c.index

theorem copied_persist (hf : Filed c.index) : c.persist.Copied := by
  intro hclean hdecodes
  rw [persist_index] at hdecodes ⊢
  rw [persist_medium]
  refine LastingMedium.saved_saveIndex_ok hf hdecodes ?_
  -- the flag is cleared only when saving succeeds
  unfold persist at hclean
  rcases h : Medium.saveIndex c.medium c.index.values with ⟨error | ⟨⟩, m⟩
  · rw [h] at hclean
    cases hclean
  · rfl

theorem copied_openOn (medium : M) (settings : CacheSettings) (now : Instant) :
    (openOn medium settings now).Copied := by
  rcases openOn_cases medium settings now with ⟨entries, -, h⟩ | ⟨error, -, h⟩ <;> rw [h]
  · exact copied_persist ((Filed.table entries).sublist (drops_purge _ now).index_sublist)
  · exact copied_persist (Filed.nil.sublist (drops_purge _ now).index_sublist)

/-- A medium with the same saved index is as good. -/
theorem Copied.medium (h : c.Copied) {m : M} (hm : saved m = saved c.medium) :
    ({ c with medium := m } : Cache M).Copied :=
  fun hclean hdecodes => hm.trans (h hclean hdecodes)

theorem Copied.get (h : c.Copied) (hf : Filed c.index) (key : String) (now : Instant) :
    (c.get key now).2.Copied := by
  rcases get_cases c key now with ⟨hg, -⟩ | ⟨e, he, ⟨-, hg⟩ | ⟨-, hrest⟩⟩
  · rw [hg]
    exact h
  · rw [hg]
    exact copied_persist (hf.sublist (drop_index_sublist c key))
  have hread := LastingMedium.saved_read c.medium key
  rcases hrest with ⟨payload, m, hm, hg⟩ | ⟨m, hm, hg⟩ | ⟨error, m, hm, hg⟩ <;> rw [hg] <;>
    rw [hm] at hread
  · -- a hit changes the index and makes the cache dirty
    exact fun hclean => nomatch hclean
  · exact copied_persist (hf.sublist List.filter_sublist)
  · exact h.medium hread

theorem Copied.store (h : c.Copied) (hf : Filed c.index) (key : String) (payload : Bytes)
    (lifetime : Option Time.Duration) (kind : String) (now : Instant) :
    (c.store key payload lifetime kind now).2.Copied := by
  rcases store_cases c key now payload lifetime kind with ⟨-, hs⟩ | ⟨error, hw, hs⟩ <;> rw [hs]
  · exact copied_persist ((hf.written key now payload lifetime kind).sublist
      (drops_keepBudget _ now).index_sublist)
  · exact h.medium (LastingMedium.saved_write_error hw)

theorem Copied.flush (h : c.Copied) (hf : Filed c.index) : c.flush.Copied := by
  unfold Cache.flush
  split
  · exact copied_persist hf
  · exact h

/-- **Every operation keeps the flag truthful.** -/
theorem Copied.perform (h : c.Copied) (hf : Filed c.index) (op : Operation) :
    (c.perform op).2.Copied := by
  cases op with
  | get key now => exact h.get hf key now
  | store key payload lifetime kind now => exact h.store hf key payload lifetime kind now
  | remove key => exact copied_persist (hf.sublist (drop_index_sublist c key))
  | clear => exact copied_persist Filed.nil
  | flush => exact h.flush hf
  | contains | entry | size | statistics => exact h

theorem Copied.run (h : c.Copied) (hf : Filed c.index) (ops : List Operation) :
    (c.run ops).Copied := by
  induction ops generalizing c with
  | nil => exact h
  | cons op ops ih => exact ih (h.perform hf op) (hf.perform op)

/-- **The flag of every reachable cache is truthful**, whatever calls fail. -/
theorem Reachable.copied (h : c.Reachable) : c.Copied := by
  obtain ⟨medium, settings, now, ops, rfl⟩ := h
  exact (copied_openOn medium settings now).run (filed_openOn medium settings now) ops

/-! ### Opening again -/

/-- Recording changes nothing about opening. -/
theorem forget_openOn (medium : M) (settings : CacheSettings) (now : Instant) :
    (openOn (⟨medium, []⟩ : Recorded M) settings now).forget = openOn medium settings now := by
  have hload : Medium.loadIndex (⟨medium, []⟩ : Recorded M) =
      Recorded.pass ⟨medium, []⟩ (Medium.loadIndex medium) := rfl
  unfold openOn
  rw [hload]
  rcases Medium.loadIndex medium with ⟨error | entries, m⟩ <;>
    exact (forget_persist _).trans (congrArg persist (forget_purge _ now))

/-- Opening deletes nothing when nothing is expired. -/
theorem openDeletions_eq_nil {medium : M} {entries : List Entry}
    (hload : (Medium.loadIndex medium).1 = .ok entries) {settings : CacheSettings} {now : Instant}
    (hfresh : ∀ e ∈ (Entry.table entries).values, ¬e.Expired now) :
    openDeletions medium settings now = [] := by
  have hexpired : (loaded (⟨medium, []⟩ : Recorded M) settings
      (Entry.table entries)).expired now = [] := by
    refine List.filter_eq_nil_iff.2 fun e he => ?_
    simpa using hfresh e he
  rw [openDeletions]
  rcases openOn_cases (⟨medium, []⟩ : Recorded M) settings now with
    ⟨entries', hload', ho⟩ | ⟨error, hload', -⟩
  · rw [ho, deletions_persist, Except.ok.inj (hload'.symm.trans hload), purge, hexpired]
    rfl
  · cases hload'.symm.trans hload

/-- **Opening with success**: what was saved is the index again, less what is expired, and the
payloads of the rest are where they were. -/
theorem openOn_succeeded {medium : M} {index : Table Entry} (hsaved : saved medium = some index)
    {entries : List Entry} (hload : (Medium.loadIndex medium).1 = .ok entries)
    {settings : CacheSettings} {now : Instant}
    (h : ∀ d ∈ openDeletions medium settings now, d.2 = true) :
    (openOn medium settings now).index = index.filter (fun item => ¬item.2.Expired now) ∧
      ∀ key, (∀ e, index.get? key = some e → ¬e.Expired now) →
        held (openOn medium settings now).medium key = held medium key := by
  have htable : Entry.table entries = index :=
    Option.some.inj ((LastingMedium.loadIndex_ok hload).symm.trans hsaved)
  have hf : Filed index := htable ▸ Filed.table entries
  -- the same opening over the medium that records deletions
  have hrecorded : openOn (⟨medium, []⟩ : Recorded M) settings now =
      ((loaded (⟨medium, []⟩ : Recorded M) settings index).purge now).persist := by
    rcases openOn_cases (⟨medium, []⟩ : Recorded M) settings now with
      ⟨entries', hload', ho⟩ | ⟨error, hload', -⟩
    · rw [ho, ← htable, Except.ok.inj (hload'.symm.trans hload)]
    · cases hload'.symm.trans hload
  have hpurge : ((loaded (⟨medium, []⟩ : Recorded M) settings index).purge now).AllDeleted := by
    intro d hd
    refine h d ?_
    rw [openDeletions, hrecorded, deletions_persist]
    exact hd
  rw [← forget_openOn, hrecorded, forget_persist]
  constructor
  · rw [persist_index]
    exact purge_index hf hpurge
  · intro key hfresh
    rw [held_persist LastingMedium.showsDeletions]
    exact (purge_held LastingMedium.showsDeletions hf hpurge hfresh).trans
      (congrFun (LastingMedium.held_loadIndex medium) key)

/-- **A restart loses nothing that was saved.** In a reachable cache whose entries decode, the index
is the saved one unless the cache is dirty. So if the cache is not dirty once it is flushed, opening
its medium at any instant yields the very index it had, less what is expired then, when the index
can be loaded and what is expired can be deleted. The payloads of the entries that remain are the
same. When the index cannot be loaded, there are no entries. -/
theorem Reachable.reopened (hc : c.Reachable) (hdecodes : ∀ e ∈ c.index.values, e.Decodes) :
    (c.dirty = false → saved c.medium = some c.index) ∧
    (c.flush.dirty = false → ∀ (settings : CacheSettings) (now : Instant),
      ((∃ entries, (Medium.loadIndex c.flush.medium).1 = .ok entries) →
        (∀ d ∈ openDeletions c.flush.medium settings now, d.2 = true) →
        (openOn c.flush.medium settings now).index =
            c.index.filter (fun item => ¬item.2.Expired now) ∧
          ∀ key, (∀ e, c.index.get? key = some e → ¬e.Expired now) →
            held (openOn c.flush.medium settings now).medium key = held c.medium key) ∧
      ((∃ error, (Medium.loadIndex c.flush.medium).1 = .error error) →
        (openOn c.flush.medium settings now).index = [])) := by
  have hcopied := hc.copied
  refine ⟨fun hclean => hcopied hclean hdecodes, fun hclean settings now => ⟨?_, ?_⟩⟩
  · rintro ⟨entries, hload⟩ hdeleted
    have hsaved := hcopied.flush hc.filed hclean (by rwa [flush_index])
    obtain ⟨hindex, hheld⟩ := openOn_succeeded hsaved hload hdeleted
    rw [flush_index] at hindex hheld
    exact ⟨hindex, fun key hfresh => (hheld key hfresh).trans
      (congrFun (held_flush LastingMedium.showsDeletions c) key)⟩
  · rintro ⟨error, hload⟩
    exact openOn_index fun entries hload' => nomatch hload'.symm.trans hload

/-! ### A hit and a refused call -/

/-- A payload is stored on a database and found. Call 3 saves the index after storing it, call 5
saves it when the cache is flushed, and call 6 loads it again. -/
def found (refused : Nat) : Cache (Unreliable Tables) :=
  (openOn (.make .empty fun n _ => n == refused) ⟨100, 60⟩ ⟨0, 0⟩).run
    [.store "k" [1] none "general" ⟨1, 0⟩, .get "k" ⟨2, 0⟩]

/-- The entry of the payload, with its hit. -/
def foundEntry : Entry :=
  ⟨"k", ⟨1, 0⟩, ⟨61, 0⟩, 1, "general", 1, ⟨2, 0⟩⟩

theorem reachable_found (refused : Nat) : (found refused).Reachable :=
  ⟨_, _, _, _, rfl⟩

theorem decodes_found {index : Table Entry} (h : index = [("k", foundEntry)]) :
    ∀ e ∈ index.values, e.Decodes := by
  rw [h]
  exact List.forall_mem_singleton.2 (by decide +kernel)

/-- The first saving fails, so the entry and its hit are saved by the flush alone, and both are
there again. -/
theorem reopened_found :
    (openOn (found 3).flush.medium ⟨100, 60⟩ ⟨3, 0⟩).index = [("k", foundEntry)] := by
  have hindex : (found 3).index = [("k", foundEntry)] := by decide +kernel
  have hdecodes := decodes_found hindex
  have hclean : (found 3).flush.dirty = false := by decide +kernel
  have hsaved : (found 3).flush.medium.medium = { (found 3).flush.medium.medium with
      index := Tables.indexTable (found 3).index.values } := rfl
  have hload : (Medium.loadIndex (found 3).flush.medium).1 = .ok (found 3).index.values := by
    change (found 3).flush.medium.medium.entries = _
    rw [hsaved]
    exact Tables.entries_indexTable (reachable_found 3).filed hdecodes
  have hdeleted : openDeletions (found 3).flush.medium ⟨100, 60⟩ ⟨3, 0⟩ = [] := by
    refine openDeletions_eq_nil hload ?_
    rw [hindex]
    decide
  have hreopened := (((reachable_found 3).reopened hdecodes).2 hclean ⟨100, 60⟩ ⟨3, 0⟩).1
    ⟨_, hload⟩ (by simp [hdeleted])
  rw [hreopened.1, hindex]
  decide +kernel

/-- When loading is refused, a cache that is opened again has no entries, although its index was
saved and nothing had to be deleted. -/
theorem not_reopened_load_refused :
    ¬∀ c : Cache (Unreliable Tables), c.Reachable → (∀ e ∈ c.index.values, e.Decodes) →
      c.flush.dirty = false → ∀ (settings : CacheSettings) (now : Instant),
        (∀ d ∈ openDeletions c.flush.medium settings now, d.2 = true) →
        (openOn c.flush.medium settings now).index =
          c.index.filter (fun item => ¬item.2.Expired now) := by
  intro h
  have hindex : (found 6).index = [("k", foundEntry)] := by decide +kernel
  have hreopened := h (found 6) (reachable_found 6) (decodes_found hindex) (by decide +kernel)
    ⟨100, 60⟩ ⟨3, 0⟩ (by decide +kernel)
  have hempty : (openOn (found 6).flush.medium ⟨100, 60⟩ ⟨3, 0⟩).index = [] := by decide +kernel
  rw [hempty, hindex] at hreopened
  exact absurd hreopened (by decide +kernel)

end Cache
end GraphReasoner
