import GraphReasoner.Cache.Storage
import GraphReasoner.Cache.Unreliable
import GraphReasoner.Proofs.Cache.Run
import Mathlib.Logic.Relation

/-!
# The budget under failing deletions

Storing a payload may bring the cache above its budget, and so may opening it over an index that was
above it already. What is expired is dropped first and the rest in the order of use, but each
deletion may fail, and an entry whose payload cannot be deleted stays. What remains true is
`GraphReasoner.Cache.totalSize_store_le_or_deletions_failed`: when a payload is stored, either the
cache fits its budget afterwards, or every single entry it still has was tried in this very call and
could not be deleted.

To say "in this very call" one has to see the deletions of a call.
`GraphReasoner.Recorded` is a medium around another one that writes them down and does nothing else:
forgetting what it wrote down gives back the call on the medium itself
(`GraphReasoner.Cache.forget_store`).

The loop is taken step by step (`GraphReasoner.Cache.EvictionStep`). Its invariant
`GraphReasoner.Cache.EvictionInvariant` is what makes the subtraction of sizes exact: the running
total is the true one, and no entry is subtracted that is not a part of it.
-/

namespace GraphReasoner

open GraphReasoner.Time (Instant Duration)
open Relation (ReflTransGen)

/-! ### A medium that records deletions -/

/-- A medium with a record of what it was asked to delete. -/
structure Recorded (M : Type) where
  medium : M
  /-- The keys that were to be deleted, the latest first, each with whether the deletion
  succeeded. -/
  deletions : List (String × Bool)

namespace Recorded

variable {M α : Type}

/-- The outcome of a call that deletes nothing. -/
def pass (r : Recorded M) (outcome : Outcome M α) : Outcome (Recorded M) α :=
  outcome.within fun medium => { r with medium }

instance [Medium M] : Medium (Recorded M) where
  read r key := r.pass (Medium.read r.medium key)
  write r key payload := r.pass (Medium.write r.medium key payload)
  delete r key :=
    let (result, medium) := Medium.delete r.medium key
    (result, ⟨medium, (key, result.isOk) :: r.deletions⟩)
  clear r := r.pass (Medium.clear r.medium)
  loadIndex r := r.pass (Medium.loadIndex r.medium)
  saveIndex r entries := r.pass (Medium.saveIndex r.medium entries)

end Recorded

namespace Cache

variable {M : Type}

/-- The cache over the medium with an empty record. -/
def recorded (c : Cache M) : Cache (Recorded M) :=
  { medium := ⟨c.medium, []⟩, index := c.index, settings := c.settings, dirty := c.dirty }

/-- The cache without the record. -/
def forget (c : Cache (Recorded M)) : Cache M :=
  { medium := c.medium.medium, index := c.index, settings := c.settings, dirty := c.dirty }

@[simp] theorem forget_recorded (c : Cache M) : c.recorded.forget = c := rfl

@[simp] theorem forget_index (c : Cache (Recorded M)) : c.forget.index = c.index := rfl

@[simp] theorem forget_settings (c : Cache (Recorded M)) : c.forget.settings = c.settings := rfl

variable [Medium M]

section Forget

variable (c : Cache (Recorded M)) (key : String) (now : Instant)

theorem forget_persist : c.persist.forget = c.forget.persist := by
  have hsave : Medium.saveIndex c.medium c.index.values =
      c.medium.pass (Medium.saveIndex c.medium.medium c.index.values) := rfl
  have hforget : Medium.saveIndex c.forget.medium c.forget.index.values =
      Medium.saveIndex c.medium.medium c.index.values := rfl
  unfold persist
  rw [hsave, hforget]
  rcases Medium.saveIndex c.medium.medium c.index.values with ⟨error | ⟨⟩, m⟩ <;> rfl

theorem forget_drop :
    (c.drop key).1 = (c.forget.drop key).1 ∧ (c.drop key).2.forget = (c.forget.drop key).2 := by
  have hdelete : Medium.delete c.medium key =
      ((Medium.delete c.medium.medium key).1, (⟨(Medium.delete c.medium.medium key).2,
        (key, (Medium.delete c.medium.medium key).1.isOk) :: c.medium.deletions⟩ : Recorded M)) :=
    rfl
  rcases h : Medium.delete c.medium.medium key with ⟨error | ⟨⟩, m⟩ <;> rw [h] at hdelete <;>
    simp [drop, forget, h, hdelete]

theorem forget_dropAll (keys : List String) :
    (c.dropAll keys).forget = c.forget.dropAll keys := by
  induction keys generalizing c with
  | nil => rfl
  | cons key keys ih =>
    refine (ih (c.drop key).2).trans ?_
    rw [(forget_drop c key).2]
    rfl

theorem forget_purge : (c.purge now).forget = c.forget.purge now :=
  forget_dropAll c _

theorem forget_evict (total : Nat) (entries : List Entry) :
    (c.evict total entries).forget = c.forget.evict total entries := by
  induction entries generalizing c total with
  | nil => rfl
  | cons e entries ih =>
    obtain ⟨h₁, h₂⟩ := forget_drop c e.key
    rw [evict_cons, evict_cons, forget_settings, ← h₁, ← h₂]
    split
    · rfl
    · split <;> exact ih _ _

theorem forget_keepBudget : (c.keepBudget now).forget = c.forget.keepBudget now := by
  have hsize : c.forget.totalSize = c.totalSize := rfl
  rw [keepBudget, keepBudget, hsize, forget_settings]
  split
  · rfl
  · rw [forget_evict, forget_purge]
    simp only [totalSize, ← forget_purge, forget_index]

theorem forget_written (payload : Bytes) (lifetime : Option Duration) (kind : String) :
    (c.written key now payload lifetime kind).forget =
      c.forget.written key now payload lifetime kind := rfl

/-- **Recording changes nothing**: without the record, storing over the recording medium is storing
over the medium itself. -/
theorem forget_store (payload : Bytes) (lifetime : Option Duration) (kind : String) :
    (c.store key payload lifetime kind now).1 = (c.forget.store key payload lifetime kind now).1 ∧
    (c.store key payload lifetime kind now).2.forget =
      (c.forget.store key payload lifetime kind now).2 := by
  have hwrite : (Medium.write c.medium key payload).1 =
      (Medium.write c.forget.medium key payload).1 := rfl
  rcases store_cases c key now payload lifetime kind with ⟨hw, hs⟩ | ⟨error, hw, hs⟩ <;>
    rcases store_cases c.forget key now payload lifetime kind with ⟨hw', hs'⟩ | ⟨error', hw', hs'⟩
  · rw [hs, hs', ← forget_written, ← forget_keepBudget, forget_index, forget_persist]
    exact ⟨rfl, rfl⟩
  · rw [hwrite, hw'] at hw
    cases hw
  · rw [hwrite, hw'] at hw
    cases hw
  · rw [hs, hs']
    exact ⟨rfl, rfl⟩

end Forget

end Cache

/-! ### Sizes -/

/-- Taking an entry away takes its size away. -/
theorem Entry.totalSize_erase {index : Table Entry} (h : index.Ordered) {key : String} {e : Entry}
    (he : index.get? key = some e) :
    totalSize (index.erase key).values + e.size = totalSize index.values := by
  induction index with
  | nil => cases he
  | cons item rest ih =>
    obtain ⟨k, e'⟩ := item
    obtain ⟨hfirst, hrest⟩ := List.pairwise_cons.1 h
    rw [Table.get?] at he
    split at he
    · rename_i hk
      subst hk
      obtain rfl := Option.some.inj he
      -- no later key is the same, so the rest stays as it is
      have hgone : Table.erase ((k, e') :: rest) k = rest := by
        have hne : ∀ item ∈ rest, (item.1 != k) = true := fun item hi =>
          bne_iff_ne.2 fun heq => String.lt_irrefl k (heq ▸ hfirst item hi)
        simpa [Table.erase] using hne
      rw [hgone]
      simp only [Table.values, List.map_cons, totalSize]
      omega
    · -- the entry is further on
      rename_i hk
      have hstay : Table.erase ((k, e') :: rest) key = (k, e') :: Table.erase rest key := by
        simp [Table.erase, hk]
      have hrec := ih hrest he
      rw [hstay]
      simp only [Table.values, List.map_cons, totalSize] at hrec ⊢
      omega

namespace Cache

variable {M : Type} [Medium M]

/-- Dropping an entry with success takes its size off the total. -/
theorem totalSize_drop {c c' : Cache M} (hf : Filed c.index) {e : Entry}
    (he : e ∈ c.index.values) (hd : c.drop e.key = (true, c')) :
    c'.totalSize + e.size = c.totalSize := by
  have hindex : c'.index = c.index.erase e.key := by simpa [hd] using drop_index c e.key
  rw [totalSize, totalSize, hindex]
  exact Entry.totalSize_erase hf.ordered (hf.get?_key he)

/-! ### The loop of the eviction -/

/-- Where the loop stands: the cache, the total it counts, and the candidates that are left. -/
abbrev EvictionState (M : Type) := Cache M × Nat × List Entry

/-- **One turn of the loop**, taken while the total is above the budget: the next candidate is
dropped and its size taken off the total, or it cannot be deleted and is passed over. -/
inductive EvictionStep : EvictionState M → EvictionState M → Prop
  /-- The payload is deleted. -/
  | dropped {c c' : Cache M} {total : Nat} {e : Entry} {entries : List Entry} :
      c.settings.budget < total → c.drop e.key = (true, c') →
      EvictionStep (c, total, e :: entries) (c', total - e.size, entries)
  /-- The deletion fails. -/
  | passed {c c' : Cache M} {total : Nat} {e : Entry} {entries : List Entry} :
      c.settings.budget < total → c.drop e.key = (false, c') →
      EvictionStep (c, total, e :: entries) (c', total, entries)

/-- Where the loop starts: what is expired is dropped, and all that is left is a candidate. -/
def evictionStart (c : Cache M) (now : Instant) : EvictionState M :=
  (c.purge now, (c.purge now).totalSize, (c.purge now).index.values.mergeSort Entry.lessUsed)

theorem keepBudget_of_lt {c : Cache M} {now : Instant} (h : c.settings.budget < c.totalSize) :
    c.keepBudget now = (c.purge now).evict (c.evictionStart now).2.1 (c.evictionStart now).2.2 := by
  rw [keepBudget, if_neg (by omega)]
  rfl

/-- **The loop takes its steps** until the total fits or no candidate is left. -/
theorem evict_reaches (c : Cache M) (total : Nat) (entries : List Entry) :
    ∃ total' rest, ReflTransGen EvictionStep (c, total, entries)
        (c.evict total entries, total', rest) ∧
      (total' ≤ c.settings.budget ∨ rest = []) := by
  induction entries generalizing c total with
  | nil => exact ⟨total, [], ReflTransGen.refl, Or.inr rfl⟩
  | cons e entries ih =>
    rw [evict_cons]
    -- the loop stops here, or it takes one step and goes on with the rest
    by_cases hfits : total ≤ c.settings.budget
    · rw [if_pos hfits]
      exact ⟨total, e :: entries, ReflTransGen.refl, Or.inl hfits⟩
    rw [if_neg hfits]
    have hsettings := drop_settings c e.key
    rcases h : c.drop e.key with ⟨_ | _, c'⟩ <;> rw [h] at hsettings
    · obtain ⟨total', rest, hsteps, hend⟩ := ih c' total
      refine ⟨total', rest, ReflTransGen.head (EvictionStep.passed (by omega) h) hsteps, ?_⟩
      rwa [← hsettings]
    · obtain ⟨total', rest, hsteps, hend⟩ := ih c' (total - e.size)
      refine ⟨total', rest, ReflTransGen.head (EvictionStep.dropped (by omega) h) hsteps, ?_⟩
      rwa [← hsettings]

/-- **The invariant of the loop**: the total it counts is that of the index, and the candidates are
entries of the index, none twice. -/
structure EvictionInvariant (s : EvictionState M) : Prop where
  filed : Filed s.1.index
  total_eq : s.2.1 = s.1.totalSize
  candidates : ∀ e ∈ s.2.2, e ∈ s.1.index.values
  nodup : (s.2.2.map Entry.key).Nodup

theorem evictionInvariant_start {c : Cache M} (h : Filed c.index) (now : Instant) :
    EvictionInvariant (c.evictionStart now) := by
  have hp : Filed (c.purge now).index := h.sublist (drops_purge c now).index_sublist
  have hperm := List.mergeSort_perm (c.purge now).index.values Entry.lessUsed
  exact
    { filed := hp
      total_eq := rfl
      candidates := fun e he => hperm.mem_iff.1 he
      nodup := (hperm.map Entry.key).nodup_iff.2 hp.values_keys_nodup }

omit [Medium M] in
/-- In a state of the loop the next candidate is a part of the total. -/
theorem EvictionInvariant.size_le {s : EvictionState M} (h : EvictionInvariant s) {e : Entry}
    (he : e ∈ s.2.2) : e.size ≤ s.2.1 := by
  have hin := Entry.totalSize_erase h.filed.ordered (h.filed.get?_key (h.candidates e he))
  have htotal : s.2.1 = Entry.totalSize s.1.index.values := h.total_eq
  omega

/-- **One turn of the loop keeps the invariant.** -/
theorem EvictionInvariant.step {s s' : EvictionState M} (h : EvictionInvariant s)
    (hs : EvictionStep s s') : EvictionInvariant s' := by
  cases hs with
  | @dropped c c' total e entries _ hd =>
    have hin : e ∈ c.index.values := h.candidates e List.mem_cons_self
    obtain ⟨hne, hnodup⟩ := List.nodup_cons.1 h.nodup
    have hsize : c'.totalSize + e.size = c.totalSize := totalSize_drop h.filed hin hd
    have htotal : total = c.totalSize := h.total_eq
    have hindex : c'.index = c.index.erase e.key := by simpa [hd] using drop_index c e.key
    refine ⟨?_, ?_, fun e' he' => ?_, hnodup⟩
    · rw [hindex]
      exact h.filed.sublist List.filter_sublist
    · change total - e.size = c'.totalSize
      omega
    · -- a candidate further on has another key, so its entry is still there
      have hother : e'.key ≠ e.key := fun heq => hne (heq ▸ List.mem_map.2 ⟨e', he', rfl⟩)
      have hstill := h.filed.get?_key (h.candidates e' (List.mem_cons_of_mem _ he'))
      rw [hindex]
      refine (Table.mem_values_iff (h.filed.ordered.erase e.key)).2 ⟨e'.key, ?_⟩
      rw [Table.get?_erase, if_neg (Ne.symm hother)]
      exact hstill
  | @passed c c' total e entries _ hd =>
    have hindex : c'.index = c.index := by simpa [hd] using drop_index c e.key
    refine ⟨?_, ?_, fun e' he' => ?_, (List.nodup_cons.1 h.nodup).2⟩
    · rw [hindex]
      exact h.filed
    · change total = Entry.totalSize c'.index.values
      rw [hindex]
      exact h.total_eq
    · rw [hindex]
      exact h.candidates e' (List.mem_cons_of_mem _ he')

/-- **Every state of the loop satisfies the invariant.** -/
theorem EvictionInvariant.steps {s s' : EvictionState M} (h : EvictionInvariant s)
    (hs : ReflTransGen EvictionStep s s') : EvictionInvariant s' := by
  induction hs with
  | refl => exact h
  | tail _ hstep ih => exact ih.step hstep

/-! ### What the record of a call says -/

section Record

variable {c : Cache (Recorded M)}

/-- A drop adds its key to the record, with whether it succeeded. -/
theorem deletions_drop (c : Cache (Recorded M)) (key : String) :
    (c.drop key).2.medium.deletions = (key, (c.drop key).1) :: c.medium.deletions := by
  have hdelete : (Medium.delete c.medium key).2.deletions =
      (key, (Medium.delete c.medium key).1.isOk) :: c.medium.deletions := rfl
  rcases drop_cases c key with ⟨m, hm, h⟩ | ⟨error, m, hm, h⟩ <;> rw [hm] at hdelete <;> rw [h] <;>
    exact hdelete

/-- **Nothing is left untried**: every entry of the index is a candidate still, or could not be
deleted. -/
def Tried (s : EvictionState (Recorded M)) : Prop :=
  ∀ e ∈ s.1.index.values, e ∈ s.2.2 ∨ (e.key, false) ∈ s.1.medium.deletions

theorem Tried.step {s s' : EvictionState (Recorded M)} (hi : EvictionInvariant s) (h : Tried s)
    (hs : EvictionStep s s') : Tried s' := by
  cases hs with
  | @dropped c c' total e entries _ hd =>
    intro e' he'
    have hrecord := deletions_drop c e.key
    have hsub := drop_index_sublist c e.key
    rw [hd] at hrecord hsub
    have hindex : c'.index = c.index.erase e.key := by simpa [hd] using drop_index c e.key
    rcases h e' ((hsub.map Prod.snd).subset he') with hc | hc
    · rcases List.mem_cons.1 hc with rfl | hc
      · -- what was just dropped is in the index no more
        have hgone : c'.index.get? e'.key = none := by
          rw [hindex, Table.get?_erase, if_pos rfl]
        have hthere : c'.index.get? e'.key = some e' :=
          (hi.filed.sublist hsub).get?_key he'
        rw [hgone] at hthere
        cases hthere
      · exact Or.inl hc
    · refine Or.inr ?_
      rw [hrecord]
      exact List.mem_cons_of_mem _ hc
  | @passed c c' total e entries _ hd =>
    intro e' he'
    have hrecord := deletions_drop c e.key
    have hsub := drop_index_sublist c e.key
    rw [hd] at hrecord hsub
    rcases h e' ((hsub.map Prod.snd).subset he') with hc | hc
    · rcases List.mem_cons.1 hc with rfl | hc
      · -- what could not be deleted heads the record now
        refine Or.inr ?_
        rw [hrecord]
        exact List.mem_cons_self
      · exact Or.inl hc
    · refine Or.inr ?_
      rw [hrecord]
      exact List.mem_cons_of_mem _ hc

theorem Tried.steps {s s' : EvictionState (Recorded M)} (hi : EvictionInvariant s) (h : Tried s)
    (hs : ReflTransGen EvictionStep s s') : Tried s' := by
  induction hs with
  | refl => exact h
  | tail hsteps hstep ih => exact ih.step (hi.steps hsteps) hstep

/-- After both phases the cache fits its budget, or all it still has could not be deleted. -/
theorem totalSize_keepBudget (hf : Filed c.index) (now : Instant) :
    (c.keepBudget now).totalSize ≤ c.settings.budget ∨
      ∀ e ∈ (c.keepBudget now).index.values,
        (e.key, false) ∈ (c.keepBudget now).medium.deletions := by
  by_cases hfits : c.totalSize ≤ c.settings.budget
  · have hsame : c.keepBudget now = c := by
      rw [keepBudget, if_pos hfits]
    rw [hsame]
    exact Or.inl hfits
  have hstart := evictionInvariant_start hf now
  have htried : Tried (c.evictionStart now) := fun e he =>
    Or.inl ((List.mergeSort_perm _ Entry.lessUsed).mem_iff.2 he)
  obtain ⟨total, rest, hsteps, hend⟩ :=
    evict_reaches (c.purge now) (c.evictionStart now).2.1 (c.evictionStart now).2.2
  rw [← keepBudget_of_lt (by omega)] at hsteps
  rcases hend with hend | rfl
  · -- the loop has stopped because its total fits, and that is the true one
    have htotal := (hstart.steps hsteps).total_eq
    rw [(drops_purge c now).settings] at hend
    exact Or.inl (htotal ▸ hend)
  · -- no candidate is left, so whatever has an entry could not be deleted
    refine Or.inr fun e he => ?_
    rcases htried.steps hstart hsteps e he with hc | hc
    · cases hc
    · exact hc

/-- Saving the index is no deletion. -/
theorem deletions_persist (c : Cache (Recorded M)) :
    c.persist.medium.deletions = c.medium.deletions := by
  rw [persist_medium]
  rfl

end Record

/-- The deletions that storing a payload tries, the latest first, with whether they succeed. -/
def storeDeletions (c : Cache M) (key : String) (payload : Bytes) (lifetime : Option Duration)
    (kind : String) (now : Instant) : List (String × Bool) :=
  (c.recorded.store key payload lifetime kind now).2.medium.deletions

theorem storeDeletions_eq {c : Cache M} {key : String} {payload : Bytes}
    {lifetime : Option Duration} {kind : String} {now : Instant}
    (hw : (Medium.write c.medium key payload).1 = .ok ()) :
    c.storeDeletions key payload lifetime kind now =
      ((c.recorded.written key now payload lifetime kind).keepBudget now).medium.deletions := by
  have hw' : (Medium.write c.recorded.medium key payload).1 = .ok () := hw
  rw [storeDeletions, store_of_write hw', deletions_persist]

/-- **The budget holds, or nothing could be deleted.** When a payload is stored in a reachable
cache, the sizes afterwards fit the budget unless every entry that is left was tried in this call
and could not be deleted; so the budget holds whenever no deletion fails. Above the budget the
eviction loop takes its steps to the end, and in every state it passes the total it counts is the
true one, and what it may subtract next is a part of it. -/
theorem totalSize_store_le_or_deletions_failed {c : Cache M} (hc : c.Reachable) (key : String)
    (payload : Bytes) (lifetime : Option Duration) (kind : String) (now : Instant)
    (hw : (Medium.write c.medium key payload).1 = .ok ()) :
    ((c.store key payload lifetime kind now).2.totalSize ≤ c.settings.budget ∨
      ∀ e ∈ (c.store key payload lifetime kind now).2.index.values,
        (e.key, false) ∈ c.storeDeletions key payload lifetime kind now) ∧
    ((∀ d ∈ c.storeDeletions key payload lifetime kind now, d.2 = true) →
      (c.store key payload lifetime kind now).2.totalSize ≤ c.settings.budget) ∧
    (c.settings.budget < (c.written key now payload lifetime kind).totalSize →
      ∃ total rest, ReflTransGen EvictionStep
        ((c.written key now payload lifetime kind).evictionStart now)
        ((c.written key now payload lifetime kind).keepBudget now, total, rest)) ∧
    ∀ s, ReflTransGen EvictionStep ((c.written key now payload lifetime kind).evictionStart now) s →
      s.2.1 = s.1.totalSize ∧ ∀ e ∈ s.2.2, e.size ≤ s.2.1 := by
  have hf : Filed (c.recorded.written key now payload lifetime kind).index :=
    hc.filed.written key now payload lifetime kind
  -- recording the deletions changes nothing about the entries that are left
  have hindex : (c.store key payload lifetime kind now).2.index =
      ((c.recorded.written key now payload lifetime kind).keepBudget now).index := by
    rw [← forget_index, forget_keepBudget, forget_written, forget_recorded,
      store_of_write hw, persist_index]
  have hsize : (c.store key payload lifetime kind now).2.totalSize =
      ((c.recorded.written key now payload lifetime kind).keepBudget now).totalSize := by
    rw [totalSize, totalSize, hindex]
  have hbudget : (c.recorded.written key now payload lifetime kind).settings = c.settings := rfl
  have hmain := totalSize_keepBudget hf now
  rw [← hsize, ← hindex, ← storeDeletions_eq hw, hbudget] at hmain
  refine ⟨hmain, fun hall => ?_, fun hover => ?_, fun s hs => ?_⟩
  · rcases hmain with hle | hfailed
    · exact hle
    have hempty : (c.store key payload lifetime kind now).2.index.values = [] :=
      List.eq_nil_iff_forall_not_mem.2 fun e he => by cases hall _ (hfailed e he)
    rw [totalSize, hempty]
    exact Nat.zero_le _
  · obtain ⟨total, rest, hsteps, -⟩ := evict_reaches
      ((c.written key now payload lifetime kind).purge now)
      ((c.written key now payload lifetime kind).evictionStart now).2.1
      ((c.written key now payload lifetime kind).evictionStart now).2.2
    rw [← keepBudget_of_lt hover] at hsteps
    exact ⟨total, rest, hsteps⟩
  · have hinv := (evictionInvariant_start
      (hc.filed.written key now payload lifetime kind) now).steps hs
    exact ⟨hinv.total_eq, fun e he => hinv.size_le he⟩

/-- A cache of three bytes over a medium that refuses every deletion keeps two payloads of two
bytes, and both were tried. -/
theorem totalSize_store_deletions_refused :
    let refuses : Nat → MediumCall → Bool := fun _ call => call == .delete
    let c := (openOn (Unreliable.make Memory.empty refuses) ⟨3, 60⟩ ⟨0, 0⟩).run
      [.store "a" [1, 2] none "general" ⟨1, 0⟩]
    (c.store "b" [3, 4] none "general" ⟨2, 0⟩).2.totalSize = 4 ∧
      ∀ e ∈ (c.store "b" [3, 4] none "general" ⟨2, 0⟩).2.index.values,
        (e.key, false) ∈ c.storeDeletions "b" [3, 4] none "general" ⟨2, 0⟩ := by
  intro refuses c
  have hc : c.Reachable := ⟨_, _, _, _, rfl⟩
  have hsize : (c.store "b" [3, 4] none "general" ⟨2, 0⟩).2.totalSize = 4 := by
    -- the candidates are in the order of their use already
    let purged := (c.written "b" ⟨2, 0⟩ [3, 4] none "general").purge ⟨2, 0⟩
    have horder : purged.index.values.mergeSort Entry.lessUsed = purged.index.values :=
      List.mergeSort_of_pairwise (by decide +kernel)
    rw [store_of_write (by decide +kernel), totalSize, persist_index,
      keepBudget_of_lt (by decide +kernel), evictionStart, horder]
    decide +kernel
  have hbudget : c.settings.budget = 3 := rfl
  refine ⟨hsize, ?_⟩
  rcases (totalSize_store_le_or_deletions_failed hc "b" [3, 4] none "general" ⟨2, 0⟩
    (by decide +kernel)).1 with hle | hfailed
  · omega
  · exact hfailed

end Cache

end GraphReasoner
