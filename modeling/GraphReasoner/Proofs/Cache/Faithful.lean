import GraphReasoner.Cache.Database
import GraphReasoner.Cache.Unreliable
import GraphReasoner.Proofs.Cache.Run
import Mathlib.Logic.Function.Basic

/-!
# Media that do what they say or nothing

Many laws of a cache hold over every medium whose calls either succeed with the effect they promise
or fail without any. `GraphReasoner.FaithfulMedium` says this through one view of the medium, the
payloads it holds. It leaves open which calls fail, so a law over faithful media is a law over all
patterns of failure: `GraphReasoner.Unreliable` around a faithful medium is faithful.

A payload is *live* (`GraphReasoner.Cache.Live`) when the index has an entry for it and the medium
holds it. The entry alone is not enough, because a payload may be lost, nor is the payload alone,
because a failing `GraphReasoner.Cache.clear` leaves payloads behind that no entry knows. The main
statement is `GraphReasoner.Cache.live_perform`: an operation makes nothing live but the payload it
stores, and whatever else is live after it was live before.
-/

namespace GraphReasoner

open GraphReasoner.Time (Instant Duration)

/-- **A medium that is faithful**: each of its calls has the effect it promises, or fails and has
none. -/
class FaithfulMedium (M : Type) extends Medium M where
  /-- The payload that is held under a key. -/
  held : M → String → Option Bytes
  /-- Reading yields what is held. -/
  read_ok : ∀ {m : M} {key : String} {found : Option Bytes},
    (read m key).1 = .ok found → found = held m key
  held_read : ∀ (m : M) (key : String), held (read m key).2 = held m
  held_write_ok : ∀ {m : M} {key : String} {payload : Bytes},
    (write m key payload).1 = .ok () →
      held (write m key payload).2 = Function.update (held m) key (some payload)
  held_write_error : ∀ {m : M} {key : String} {payload : Bytes} {error : StorageError},
    (write m key payload).1 = .error error → held (write m key payload).2 = held m
  held_delete_ok : ∀ {m : M} {key : String},
    (delete m key).1 = .ok () → held (delete m key).2 = Function.update (held m) key none
  held_delete_error : ∀ {m : M} {key : String} {error : StorageError},
    (delete m key).1 = .error error → held (delete m key).2 = held m
  held_clear_ok : ∀ {m : M}, (clear m).1 = .ok () → held (clear m).2 = fun _ => none
  held_clear_error : ∀ {m : M} {error : StorageError},
    (clear m).1 = .error error → held (clear m).2 = held m
  held_loadIndex : ∀ m : M, held (loadIndex m).2 = held m
  held_saveIndex : ∀ (m : M) (entries : List Entry), held (saveIndex m entries).2 = held m

open FaithfulMedium (held)

/-! ### Faithful media -/

theorem Table.get?_insert_eq_update {V : Type} (t : Table V) (key : String) (value : V) :
    (t.insert key value).get? = Function.update t.get? key (some value) := by
  funext other
  rw [get?_insert]
  by_cases h : key = other
  · rw [if_pos h, ← h, Function.update_self]
  · rw [if_neg h, Function.update_of_ne (Ne.symm h)]

theorem Table.get?_erase_eq_update {V : Type} (t : Table V) (key : String) :
    (t.erase key).get? = Function.update t.get? key none := by
  funext other
  rw [get?_erase]
  by_cases h : key = other
  · rw [if_pos h, ← h, Function.update_self]
  · rw [if_neg h, Function.update_of_ne (Ne.symm h)]

/-- Memory never fails. -/
instance : FaithfulMedium Memory where
  held m := m.payloads.get?
  read_ok h := (Except.ok.inj h).symm
  held_read _ _ := rfl
  held_write_ok _ := Table.get?_insert_eq_update _ _ _
  held_write_error h := nomatch h
  held_delete_ok _ := Table.get?_erase_eq_update _ _
  held_delete_error h := nomatch h
  held_clear_ok _ := rfl
  held_clear_error h := nomatch h
  held_loadIndex _ := rfl
  held_saveIndex _ _ := rfl

/-- A database fails in reading its index at most. -/
instance : FaithfulMedium Tables where
  held t := t.payloads.get?
  read_ok h := (Except.ok.inj h).symm
  held_read _ _ := rfl
  held_write_ok _ := Table.get?_insert_eq_update _ _ _
  held_write_error h := nomatch h
  held_delete_ok _ := Table.get?_erase_eq_update _ _
  held_delete_error h := nomatch h
  held_clear_ok _ := rfl
  held_clear_error h := nomatch h
  held_loadIndex _ := rfl
  held_saveIndex _ _ := rfl

namespace Unreliable

variable {M α : Type}

/-- **A call is carried out or refused**, and a refused call leaves the medium alone. -/
theorem call_cases (u : Unreliable M) (kind : MediumCall) (action : M → Outcome M α) :
    (u.call kind action).1 = (action u.medium).1 ∧
      (u.call kind action).2.medium = (action u.medium).2 ∨
    ∃ error, (u.call kind action).1 = .error error ∧ (u.call kind action).2.medium = u.medium := by
  unfold call
  split
  · exact Or.inr ⟨_, rfl, rfl⟩
  · exact Or.inl ⟨rfl, rfl⟩

section Views

variable {β : Type} {view : M → β} {b : β} {u : Unreliable M} {kind : MediumCall}
  {action : M → Outcome M α}

/-- A call that succeeds was carried out. -/
theorem call_ok {a : α} (h : (u.call kind action).1 = .ok a) : (action u.medium).1 = .ok a := by
  rcases call_cases u kind action with ⟨h₁, -⟩ | ⟨error, h₁, -⟩
  · exact h₁.symm.trans h
  · cases h₁.symm.trans h

/-- What a view of the medium shows after a call that succeeds. -/
theorem view_call_ok {a : α} (h : (u.call kind action).1 = .ok a)
    (hview : (action u.medium).1 = .ok a → view (action u.medium).2 = b) :
    view (u.call kind action).2.medium = b := by
  rcases call_cases u kind action with ⟨h₁, h₂⟩ | ⟨error, h₁, -⟩
  · exact (congrArg view h₂).trans (hview (h₁.symm.trans h))
  · cases h₁.symm.trans h

/-- A view that failures leave alone, a call that fails leaves alone. -/
theorem view_call_error {error : StorageError} (h : (u.call kind action).1 = .error error)
    (hview : (action u.medium).1 = .error error → view (action u.medium).2 = view u.medium) :
    view (u.call kind action).2.medium = view u.medium := by
  rcases call_cases u kind action with ⟨h₁, h₂⟩ | ⟨_, -, h₂⟩
  · exact (congrArg view h₂).trans (hview (h₁.symm.trans h))
  · exact congrArg view h₂

/-- A view that an action leaves alone, the call leaves alone. -/
theorem view_call (hview : view (action u.medium).2 = view u.medium) :
    view (u.call kind action).2.medium = view u.medium := by
  rcases call_cases u kind action with ⟨-, h₂⟩ | ⟨error, -, h₂⟩
  · exact (congrArg view h₂).trans hview
  · exact congrArg view h₂

end Views

variable [FaithfulMedium M]

/-- A medium whose calls are refused at will is faithful when the medium inside is. -/
instance : FaithfulMedium (Unreliable M) where
  held u := held u.medium
  read_ok h := FaithfulMedium.read_ok (call_ok h)
  held_read u key := view_call (FaithfulMedium.held_read u.medium key)
  held_write_ok h := view_call_ok h FaithfulMedium.held_write_ok
  held_write_error h := view_call_error h FaithfulMedium.held_write_error
  held_delete_ok h := view_call_ok h FaithfulMedium.held_delete_ok
  held_delete_error h := view_call_error h FaithfulMedium.held_delete_error
  held_clear_ok h := view_call_ok h FaithfulMedium.held_clear_ok
  held_clear_error h := view_call_error h FaithfulMedium.held_clear_error
  held_loadIndex u := view_call (FaithfulMedium.held_loadIndex u.medium)
  held_saveIndex u entries := view_call (FaithfulMedium.held_saveIndex u.medium entries)

end Unreliable

/-! ### Views of the payloads -/

/-- **A view of the payloads that follows deletions**: a deletion that succeeds takes its payload
out of the view, and saving the index leaves the view alone. -/
structure Medium.ShowsDeletions {M : Type} [Medium M] (held : M → String → Option Bytes) :
    Prop where
  delete_ok : ∀ {m : M} {key : String}, (Medium.delete m key).1 = .ok () →
    held (Medium.delete m key).2 = Function.update (held m) key none
  saveIndex : ∀ (m : M) (entries : List Entry), held (Medium.saveIndex m entries).2 = held m

/-- **A view of the payloads** that a medium holds: it follows deletions and writes, and reading
yields what it shows. -/
structure Medium.Shows {M : Type} [Medium M] (held : M → String → Option Bytes) : Prop
    extends Medium.ShowsDeletions held where
  read_ok : ∀ {m : M} {key : String} {found : Option Bytes},
    (Medium.read m key).1 = .ok found → found = held m key
  write_ok : ∀ {m : M} {key : String} {payload : Bytes},
    (Medium.write m key payload).1 = .ok () →
      held (Medium.write m key payload).2 = Function.update (held m) key (some payload)

theorem FaithfulMedium.shows {M : Type} [FaithfulMedium M] :
    Medium.Shows (FaithfulMedium.held (M := M)) where
  delete_ok := FaithfulMedium.held_delete_ok
  saveIndex := FaithfulMedium.held_saveIndex
  read_ok := FaithfulMedium.read_ok
  write_ok := FaithfulMedium.held_write_ok

/-- What a look-up yields is what a view shows, when there is an entry that is not expired and the
medium can be read. -/
theorem Cache.get_eq_held {M : Type} [Medium M] {held : M → String → Option Bytes}
    (hshows : Medium.Shows held) {c : Cache M} {key : String} {now : Instant} {e : Entry}
    (he : c.index.get? key = some e) (hfresh : ¬e.Expired now)
    (hread : ∃ found, (Medium.read c.medium key).1 = .ok found) :
    (c.get key now).1 = held c.medium key := by
  obtain ⟨found, hfound⟩ := hread
  rw [← hshows.read_ok hfound]
  rcases get_cases c key now with ⟨-, hnone⟩ | ⟨e', he', ⟨hexpired, -⟩ | ⟨-, hrest⟩⟩
  · cases hnone.symm.trans he
  · obtain rfl := Option.some.inj (he'.symm.trans he)
    exact absurd hexpired hfresh
  · rcases hrest with ⟨payload, m, hm, hg⟩ | ⟨m, hm, hg⟩ | ⟨error, m, hm, -⟩ <;> rw [hm] at hfound
    · rw [hg]
      exact Except.ok.inj hfound
    · rw [hg]
      exact Except.ok.inj hfound
    · cases hfound

/-! ### Live payloads -/

namespace Cache

variable {M : Type} [FaithfulMedium M] {c : Cache M} {k : String} {e : Entry} {payload : Bytes}

/-- **A live payload**: the index has its entry and the medium holds it. -/
def Live (c : Cache M) (k : String) (e : Entry) (payload : Bytes) : Prop :=
  c.index.get? k = some e ∧ held c.medium k = some payload

@[simp] theorem live_persist : c.persist.Live k e payload ↔ c.Live k e payload := by
  unfold Live
  rw [persist_index, persist_medium, FaithfulMedium.held_saveIndex]

/-- **What a drop does over a faithful medium**: it deletes the payload and its entry, or
neither. -/
theorem drop_faithful (c : Cache M) (key : String) :
    ((c.drop key).1 = true ∧ (c.drop key).2.index = c.index.erase key ∧
      held (c.drop key).2.medium = Function.update (held c.medium) key none) ∨
    ((c.drop key).1 = false ∧ (c.drop key).2.index = c.index ∧
      held (c.drop key).2.medium = held c.medium) := by
  rcases drop_cases c key with ⟨m, hm, hd⟩ | ⟨error, m, hm, hd⟩ <;> rw [hd]
  · have hok : (Medium.delete c.medium key).1 = .ok () := by rw [hm]
    have hheld := FaithfulMedium.held_delete_ok hok
    rw [hm] at hheld
    exact Or.inl ⟨rfl, rfl, hheld⟩
  · have herror : (Medium.delete c.medium key).1 = .error error := by rw [hm]
    have hheld := FaithfulMedium.held_delete_error herror
    rw [hm] at hheld
    exact Or.inr ⟨rfl, rfl, hheld⟩

/-- What a drop leaves live was live, and it is not what was dropped. -/
theorem live_drop {key : String} (h : (c.drop key).2.Live k e payload) :
    c.Live k e payload ∧ ((c.drop key).1 = true → k ≠ key) := by
  obtain ⟨hi, hp⟩ := h
  rcases drop_faithful c key with ⟨-, hindex, hheld⟩ | ⟨hfalse, hindex, hheld⟩ <;>
    rw [hindex] at hi <;> rw [hheld] at hp
  · have hne : key ≠ k := by
      rintro rfl
      rw [Table.get?_erase, if_pos rfl] at hi
      cases hi
    rw [Table.get?_erase, if_neg hne] at hi
    rw [Function.update_of_ne (Ne.symm hne)] at hp
    exact ⟨⟨hi, hp⟩, fun _ => Ne.symm hne⟩
  · refine ⟨⟨hi, hp⟩, fun htrue => ?_⟩
    rw [hfalse] at htrue
    cases htrue

/-- What is live stays live in a drop that leaves its entry. -/
theorem Live.drop {key : String} (h : c.Live k e payload)
    (hk : (c.drop key).2.index.contains k = true) : (c.drop key).2.Live k e payload := by
  rcases drop_faithful c key with ⟨-, hindex, hheld⟩ | ⟨-, hindex, hheld⟩
  · have hne : key ≠ k := by
      rintro rfl
      obtain ⟨e', he'⟩ := Table.contains_iff.1 hk
      rw [hindex, Table.get?_erase, if_pos rfl] at he'
      cases he'
    constructor
    · rw [hindex, Table.get?_erase, if_neg hne]
      exact h.1
    · rw [hheld, Function.update_of_ne (Ne.symm hne)]
      exact h.2
  · exact ⟨hindex ▸ h.1, hheld ▸ h.2⟩

/-- An entry that a sublist of an index has, the index has. -/
theorem contains_of_sublist {index rest : Table Entry} (hi : index.Ordered)
    (hs : rest.Sublist index) (hk : rest.contains k = true) : index.contains k = true := by
  obtain ⟨e, he⟩ := Table.contains_iff.1 hk
  exact Table.contains_iff.2 ⟨e, hi.mem_iff.1 (hs.subset (Table.mem_of_get? he))⟩

/-- **Drops make nothing live.** -/
theorem Drops.live {c' : Cache M} (h : Drops c c') (hl : c'.Live k e payload) :
    c.Live k e payload := by
  induction h with
  | refl => exact hl
  | tail _ hstep ih =>
    obtain ⟨key, rfl⟩ := hstep
    exact ih (live_drop hl).1

/-- **Drops take a payload and its entry together**: what is live stays live as long as its entry
stays. -/
theorem Drops.live_of_contains {c' : Cache M} (h : Drops c c') (hf : Filed c.index)
    (hl : c.Live k e payload) (hk : c'.index.contains k = true) : c'.Live k e payload := by
  induction h with
  | refl => exact hl
  | tail hdrops hstep ih =>
    obtain ⟨key, rfl⟩ := hstep
    have hf' := hf.sublist (Drops.index_sublist hdrops)
    exact (ih (contains_of_sublist hf'.ordered (drop_index_sublist _ key) hk)).drop hk

/-! ### What an operation makes live -/

/-- **An operation supersedes what was stored under a key** when it stores another payload there, or
removes the entry, or clears the cache, whether or not the medium is cleared. -/
def Supersedes (c : Cache M) (k : String) : Operation → Prop
  | .store key payload _ _ _ => key = k ∧ (Medium.write c.medium key payload).1 = .ok ()
  | .remove key => key = k ∧ (c.remove key).1 = true
  | .clear => True
  | .get .. | .contains .. | .entry _ | .size | .statistics _ | .flush => False

/-- A payload that is live after a look-up was live before, perhaps with fewer hits. -/
theorem live_get {key : String} {now : Instant} (h : (c.get key now).2.Live k e payload) :
    ∃ e₀, c.Live k e₀ payload ∧ (e = e₀ ∨ key = k ∧ e = e₀.touched now) := by
  rcases get_cases c key now with ⟨hg, -⟩ | ⟨e', he', ⟨-, hg⟩ | ⟨-, hrest⟩⟩
  · rw [hg] at h
    exact ⟨e, h, Or.inl rfl⟩
  · rw [hg, live_persist] at h
    exact ⟨e, (live_drop h).1, Or.inl rfl⟩
  -- there is an entry that is not expired: its payload is found, is gone, or cannot be read
  have hread := FaithfulMedium.held_read c.medium key
  rcases hrest with ⟨found, m, hm, hg⟩ | ⟨m, hm, hg⟩ | ⟨error, m, hm, hg⟩ <;>
    rw [hg] at h <;> rw [hm] at hread
  · obtain ⟨hi, hp⟩ := h
    change (c.index.insert key (e'.touched now)).get? k = some e at hi
    have hheld : held c.medium k = some payload := (congrFun hread k).symm.trans hp
    rw [Table.get?_insert] at hi
    split at hi
    · rename_i hkey
      exact ⟨e', ⟨hkey ▸ he', hheld⟩, Or.inr ⟨hkey, (Option.some.inj hi).symm⟩⟩
    · exact ⟨e, ⟨hi, hheld⟩, Or.inl rfl⟩
  · obtain ⟨hi, hp⟩ := live_persist.1 h
    change (c.index.erase key).get? k = some e at hi
    rw [Table.get?_erase] at hi
    split at hi
    · cases hi
    · exact ⟨e, ⟨hi, (congrFun hread k).symm.trans hp⟩, Or.inl rfl⟩
  · exact ⟨e, ⟨h.1, (congrFun hread k).symm.trans h.2⟩, Or.inl rfl⟩

/-- Once a payload is written, it is live, and what else is live was live before. -/
theorem live_written {key : String} {now : Instant} {stored : Bytes} {lifetime : Option Duration}
    {kind : String} (hw : (Medium.write c.medium key stored).1 = .ok ()) :
    (c.written key now stored lifetime kind).Live k e payload ↔
      (key = k ∧ stored = payload ∧ e = newEntry c.settings key stored lifetime kind now) ∨
        key ≠ k ∧ c.Live k e payload := by
  unfold Live written
  rw [FaithfulMedium.held_write_ok hw, Table.get?_insert]
  by_cases hkey : key = k
  · subst hkey
    rw [if_pos rfl, Function.update_self]
    constructor
    · rintro ⟨he, hp⟩
      exact Or.inl ⟨rfl, Option.some.inj hp, (Option.some.inj he).symm⟩
    · rintro (⟨-, rfl, rfl⟩ | ⟨hne, -⟩)
      · exact ⟨rfl, rfl⟩
      · exact absurd rfl hne
  · rw [if_neg hkey, Function.update_of_ne (Ne.symm hkey)]
    constructor
    · exact fun h => Or.inr ⟨hkey, h⟩
    · rintro (⟨heq, -⟩ | ⟨-, h⟩)
      · exact absurd heq hkey
      · exact h

/-- **An operation makes nothing live but the payload it stores.** Whatever else is live after it
was live before with the same expiry, and the operation did not supersede it. -/
theorem live_perform {op : Operation} (h : (c.perform op).2.Live k e payload) :
    (∃ lifetime kind now, op = .store k payload lifetime kind now ∧
      (Medium.write c.medium k payload).1 = .ok () ∧
      e = newEntry c.settings k payload lifetime kind now) ∨
    ∃ e₀, c.Live k e₀ payload ∧ (e = e₀ ∨ ∃ now, op = .get k now ∧ e = e₀.touched now) ∧
      ¬c.Supersedes k op := by
  cases op with
  | get key now =>
    obtain ⟨e₀, hl, he⟩ := live_get h
    refine Or.inr ⟨e₀, hl, ?_, id⟩
    rcases he with he | ⟨rfl, he⟩
    · exact Or.inl he
    · exact Or.inr ⟨now, rfl, he⟩
  | store key stored lifetime kind now =>
    change (c.store key stored lifetime kind now).2.Live k e payload at h
    rcases store_cases c key now stored lifetime kind with ⟨hw, hs⟩ | ⟨error, hw, hs⟩ <;>
      rw [hs] at h
    · have hwritten := (drops_keepBudget _ now).live (live_persist.1 h)
      rcases (live_written hw).1 hwritten with ⟨rfl, rfl, he⟩ | ⟨hne, hl⟩
      · exact Or.inl ⟨lifetime, kind, now, rfl, hw, he⟩
      · exact Or.inr ⟨e, hl, Or.inl rfl, fun hsup => hne hsup.1⟩
    · -- the write has failed, so the entry of an older payload is what it was
      refine Or.inr ⟨e, ⟨h.1, ?_⟩, Or.inl rfl, fun hsup => ?_⟩
      · exact (congrFun (FaithfulMedium.held_write_error hw) k).symm.trans h.2
      · rw [hsup.2] at hw
        cases hw
  | remove key =>
    change (c.remove key).2.Live k e payload at h
    rw [remove_snd, live_persist] at h
    obtain ⟨hl, hne⟩ := live_drop h
    refine Or.inr ⟨e, hl, Or.inl rfl, fun hsup => ?_⟩
    -- a removal that supersedes the payload has deleted it, and then nothing is live there
    obtain ⟨rfl, hremoved⟩ := hsup
    rw [remove_fst, Bool.and_eq_true] at hremoved
    exact hne hremoved.1 rfl
  | clear =>
    have hi := h.1
    change c.clear.index.get? k = some e at hi
    rw [clear_index] at hi
    cases hi
  | flush =>
    refine Or.inr ⟨e, ?_, Or.inl rfl, id⟩
    change c.flush.Live k e payload at h
    unfold flush at h
    split at h
    · exact live_persist.1 h
    · exact h
  | contains | entry | size | statistics => exact Or.inr ⟨e, h, Or.inl rfl, id⟩

end Cache

end GraphReasoner
