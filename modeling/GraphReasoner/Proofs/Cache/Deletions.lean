import GraphReasoner.Proofs.Cache.Budget
import GraphReasoner.Proofs.Cache.Lasting

/-!
# Deletions that succeed

When no deletion fails, a loop over entries does what it is meant to do: the keys it goes through
leave the index, their payloads leave the medium, and nothing else changes. This is said here once,
for the loop over any keys (`GraphReasoner.Cache.dropAll_index`, `GraphReasoner.Cache.dropAll_held`)
and for the purge (`GraphReasoner.Cache.purge_index`, `GraphReasoner.Cache.purge_held`). That the
deletions succeed is a statement about the record that `GraphReasoner.Recorded` keeps of them; of
the medium not more is asked than a view that follows deletions
(`GraphReasoner.Medium.ShowsDeletions`).
-/

namespace GraphReasoner

open GraphReasoner.Time (Instant)

namespace Cache

variable {M : Type} [Medium M]

/-! ### Saving -/

section Saving

variable {held : M → String → Option Bytes} (hshows : Medium.ShowsDeletions held)
include hshows

theorem held_persist (c : Cache M) : held c.persist.medium = held c.medium := by
  rw [persist_medium]
  exact hshows.saveIndex c.medium c.index.values

theorem held_flush (c : Cache M) : held c.flush.medium = held c.medium := by
  unfold flush
  split
  · exact held_persist hshows c
  · rfl

/-- A drop that succeeds deletes the payload. -/
theorem held_drop {c : Cache M} {key : String} (h : (c.drop key).1 = true) :
    held (c.drop key).2.medium = Function.update (held c.medium) key none := by
  rcases drop_cases c key with ⟨m, hm, hd⟩ | ⟨error, m, -, hd⟩ <;> rw [hd] at h ⊢
  · have hok : (Medium.delete c.medium key).1 = .ok () := by rw [hm]
    have hheld := hshows.delete_ok hok
    rw [hm] at hheld
    exact hheld
  · cases h

end Saving

/-! ### The record of deletions -/

/-- Every deletion on the record has succeeded. -/
def AllDeleted (c : Cache (Recorded M)) : Prop :=
  ∀ d ∈ c.medium.deletions, d.2 = true

/-- A drop before which all had succeeded, and after which all have, has succeeded. -/
theorem allDeleted_drop {c : Cache (Recorded M)} {key : String} :
    (c.drop key).2.AllDeleted ↔ (c.drop key).1 = true ∧ c.AllDeleted := by
  rw [AllDeleted, deletions_drop, List.forall_mem_cons, AllDeleted]

theorem Drops.allDeleted {c c' : Cache (Recorded M)} (hd : Drops c c') (h : c'.AllDeleted) :
    c.AllDeleted := by
  induction hd with
  | refl => exact h
  | tail _ hstep ih =>
    obtain ⟨key, rfl⟩ := hstep
    exact ih (allDeleted_drop.1 h).2

/-! ### Loops in which every deletion succeeds -/

section Loops

variable {held : M → String → Option Bytes} (hshows : Medium.ShowsDeletions held)
  {c : Cache (Recorded M)}

/-- **Dropping some keys with success** takes them out of the index. -/
theorem dropAll_index {keys : List String} (h : (c.dropAll keys).AllDeleted) :
    (c.dropAll keys).index = c.index.filter (fun item => item.1 ∉ keys) := by
  induction keys generalizing c with
  | nil => simp [dropAll]
  | cons key keys ih =>
    have hdropped := (allDeleted_drop.1 ((drops_dropAll (c.drop key).2 keys).allDeleted h)).1
    refine (ih (c := (c.drop key).2) h).trans ?_
    rw [drop_index, if_pos hdropped, Table.erase, List.filter_filter]
    refine List.filter_congr fun item _ => ?_
    rw [Bool.and_comm, bne, Bool.beq_eq_decide_eq]
    simp [not_or]

include hshows in
/-- **Dropping some keys with success** deletes their payloads and no others. -/
theorem dropAll_held {keys : List String} (h : (c.dropAll keys).AllDeleted) (key : String) :
    held (c.dropAll keys).forget.medium key =
      if key ∈ keys then none else held c.forget.medium key := by
  induction keys generalizing c with
  | nil => simp [dropAll]
  | cons first keys ih =>
    have hdropped := (allDeleted_drop.1 ((drops_dropAll (c.drop first).2 keys).allDeleted h)).1
    obtain ⟨hresult, hforget⟩ := forget_drop c first
    refine (ih (c := (c.drop first).2) h).trans ?_
    rw [hforget, held_drop hshows (hresult ▸ hdropped)]
    by_cases hkey : key = first <;> simp [hkey]

omit [Medium M] in
/-- The keys of the entries that are expired. -/
theorem mem_map_key_expired (hf : Filed c.index) {now : Instant} {key : String} :
    key ∈ (c.expired now).map Entry.key ↔ ∃ e, c.index.get? key = some e ∧ e.Expired now := by
  simp only [expired, List.mem_map, List.mem_filter, decide_eq_true_eq]
  constructor
  · rintro ⟨e, ⟨he, hexpired⟩, rfl⟩
    exact ⟨e, hf.get?_key he, hexpired⟩
  · rintro ⟨e, he, hexpired⟩
    exact ⟨e, ⟨(Table.mem_values_iff hf.ordered).2 ⟨key, he⟩, hexpired⟩, hf.key_eq he⟩

/-- **Purging with success** leaves what is not expired. -/
theorem purge_index (hf : Filed c.index) {now : Instant} (h : (c.purge now).AllDeleted) :
    (c.purge now).index = c.index.filter (fun item => ¬item.2.Expired now) := by
  refine (dropAll_index h).trans (List.filter_congr fun item hitem => ?_)
  have hget := hf.ordered.mem_iff.1 hitem
  simp [mem_map_key_expired hf, hget]

include hshows in
/-- **Purging with success** deletes the payloads of what is expired and no others. -/
theorem purge_held (hf : Filed c.index) {now : Instant} (h : (c.purge now).AllDeleted)
    {key : String} (hfresh : ∀ e, c.index.get? key = some e → ¬e.Expired now) :
    held (c.purge now).forget.medium key = held c.forget.medium key := by
  rw [purge, dropAll_held hshows h, if_neg]
  intro hkey
  obtain ⟨e, he, hexpired⟩ := (mem_map_key_expired hf).1 hkey
  exact hfresh e he hexpired

end Loops

end Cache

end GraphReasoner
