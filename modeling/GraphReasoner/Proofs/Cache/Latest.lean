import GraphReasoner.Proofs.Cache.Faithful
import Mathlib.Data.List.Induction

/-!
# A look-up yields the latest payload

Over a faithful medium, and whatever calls fail, a look-up never yields a payload that was
overwritten, removed or cleared away. This is a statement about a whole run
(`GraphReasoner.Cache.Latest`): somewhere in it the payload was stored, and no later operation
superseded it. The index is what makes it true. A failed overwrite leaves payload and entry alone, a
failed deletion leaves both in place, and a failed `GraphReasoner.Cache.clear` leaves payloads
behind but no entry that leads to them.

Conversely a payload that was stored and kept is found by the next look-up
(`GraphReasoner.Cache.live_store`), because the eviction takes a payload and its entry together.

* `GraphReasoner.Cache.get_run_eq_latest` – both directions.
-/

namespace GraphReasoner

open GraphReasoner.Time (Instant Duration)

theorem Time.Instant.not_le {a b : Instant} : ¬a ≤ b ↔ b < a := by
  change ¬(a.seconds < b.seconds ∨ a.seconds = b.seconds ∧ a.nanos ≤ b.nanos) ↔
    b.seconds < a.seconds ∨ b.seconds = a.seconds ∧ b.nanos < a.nanos
  omega

open FaithfulMedium (held)

namespace Cache

variable {M : Type}

section Settings

variable [Medium M]

@[simp] theorem perform_settings (c : Cache M) (op : Operation) :
    (c.perform op).2.settings = c.settings := by
  cases op with
  | get key now =>
    change (c.get key now).2.settings = c.settings
    rcases get_cases c key now with ⟨hg, -⟩ | ⟨e, -, ⟨-, hg⟩ | ⟨-, hrest⟩⟩
    · rw [hg]
    · rw [hg, persist_settings, drop_settings]
    · rcases hrest with ⟨payload, m, -, hg⟩ | ⟨m, -, hg⟩ | ⟨error, m, -, hg⟩ <;> rw [hg]
      rw [persist_settings]
  | store key payload lifetime kind now =>
    change (c.store key payload lifetime kind now).2.settings = c.settings
    rcases store_cases c key now payload lifetime kind with ⟨-, hs⟩ | ⟨error, -, hs⟩ <;> rw [hs]
    rw [persist_settings, (drops_keepBudget _ now).settings]
    rfl
  | remove key =>
    change (c.remove key).2.settings = c.settings
    rw [remove_snd, persist_settings, drop_settings]
  | clear => exact clear_settings c
  | flush => exact flush_settings c
  | contains | entry | size | statistics => rfl

@[simp] theorem run_settings (c : Cache M) (ops : List Operation) :
    (c.run ops).settings = c.settings := by
  induction ops generalizing c with
  | nil => rfl
  | cons op ops ih => exact (ih (c.perform op).2).trans (perform_settings c op)

/-- A cache that was opened over a medium without a saved index has no entries. -/
theorem openOn_index {medium : M} {settings : CacheSettings} {now : Instant}
    (hempty : ∀ entries, (Medium.loadIndex medium).1 = .ok entries → entries = []) :
    (openOn medium settings now).index = [] := by
  rw [openOn, persist_index]
  refine List.sublist_nil.1 ((drops_purge _ now).index_sublist.trans ?_)
  rcases hl : (Medium.loadIndex medium).1 with error | entries
  · -- an index that cannot be read counts as empty
    exact List.Sublist.refl _
  · rw [hempty entries hl]
    exact List.Sublist.refl _

end Settings

variable [FaithfulMedium M]

/-- **The latest payload of a key in a run**: it was stored, so that it expires at an instant, its
write succeeded, and no operation after that superseded it. -/
def Latest (c₀ : Cache M) (ops : List Operation) (k : String) (payload : Bytes)
    (expires : Instant) : Prop :=
  ∃ before lifetime kind now after,
    ops = before ++ .store k payload lifetime kind now :: after ∧
    (Medium.write (c₀.run before).medium k payload).1 = .ok () ∧
    expires = now.after (lifetime.getD (.ofSeconds c₀.settings.lifetime)) ∧
    ∀ middle op rest, after = middle ++ op :: rest →
      ¬(c₀.run (before ++ .store k payload lifetime kind now :: middle)).Supersedes k op

section Latest

variable {c₀ : Cache M} {ops : List Operation} {k : String} {payload : Bytes} {expires : Instant}

theorem Latest.concat (h : Latest c₀ ops k payload expires) {op : Operation}
    (hop : ¬(c₀.run ops).Supersedes k op) : Latest c₀ (ops ++ [op]) k payload expires := by
  obtain ⟨before, lifetime, kind, now, after, rfl, hw, hexpires, hafter⟩ := h
  refine ⟨before, lifetime, kind, now, after ++ [op], by simp, hw, hexpires, ?_⟩
  intro middle op' rest heq
  -- an operation after the store is the new one, or one of those that were there
  rcases List.eq_nil_or_concat rest with rfl | ⟨rest', last, rfl⟩
  · have hlast : after = middle ∧ op = op' := by simpa using List.append_inj' heq rfl
    obtain ⟨rfl, rfl⟩ := hlast
    exact hop
  · have hinner : after ++ [op] = (middle ++ op' :: rest') ++ [last] := by simpa using heq
    exact hafter middle op' rest' (List.append_inj' hinner rfl).1

/-- **What is live in a run is the latest payload of its key.** -/
theorem live_run (hempty : c₀.index = []) {e : Entry} (h : (c₀.run ops).Live k e payload) :
    Latest c₀ ops k payload e.expires := by
  -- from the last operation backwards: it stored the payload, or it left it live
  induction ops using List.reverseRecOn generalizing e with
  | nil =>
    have hi : c₀.index.get? k = some e := h.1
    rw [hempty] at hi
    cases hi
  | append_singleton ops op ih =>
    rw [run_concat] at h
    rcases live_perform h with ⟨lifetime, kind, now, rfl, hw, rfl⟩ | ⟨e₀, hl, he, hop⟩
    · refine ⟨ops, lifetime, kind, now, [], rfl, hw, ?_, ?_⟩
      · change now.after (lifetime.getD (.ofSeconds (c₀.run ops).settings.lifetime)) = _
        rw [run_settings]
      · exact fun middle op rest heq => by simp at heq
    · have hexpires : e.expires = e₀.expires := by
        rcases he with rfl | ⟨now, -, rfl⟩ <;> rfl
      rw [hexpires]
      exact (ih hl).concat hop

end Latest

section Lookup

variable {c : Cache M} {k : String} {payload : Bytes} {now : Instant}

/-- What a look-up yields is live and not expired. -/
theorem live_of_get (h : (c.get k now).1 = some payload) :
    ∃ e, c.Live k e payload ∧ now < e.expires := by
  rcases get_cases c k now with ⟨hg, -⟩ | ⟨e, he, ⟨-, hg⟩ | ⟨hfresh, hrest⟩⟩
  · rw [hg] at h
    cases h
  · rw [hg] at h
    cases h
  rcases hrest with ⟨found, m, hm, hg⟩ | ⟨m, hm, hg⟩ | ⟨error, m, hm, hg⟩ <;> rw [hg] at h
  · have hfound : some found = held c.medium k := FaithfulMedium.read_ok (by rw [hm])
    exact ⟨e, ⟨he, hfound ▸ h⟩, Instant.not_le.1 hfresh⟩
  · cases h
  · cases h

/-- A live payload that is not expired is found when the medium can be read. -/
theorem Live.get {e : Entry} (h : c.Live k e payload) (hnow : now < e.expires)
    (hread : ∃ found, (Medium.read c.medium k).1 = .ok found) :
    (c.get k now).1 = some payload := by
  rw [get_eq_held FaithfulMedium.shows h.1 (Instant.not_le.2 hnow) hread]
  exact h.2

/-- **What was stored and kept is live**, with the entry it was given. -/
theorem live_store (hf : Filed c.index) {lifetime : Option Duration} {kind : String}
    (h : (c.store k payload lifetime kind now).1 = true) :
    (c.store k payload lifetime kind now).2.Live k
      (newEntry c.settings k payload lifetime kind now) payload := by
  rcases store_cases c k now payload lifetime kind with ⟨hw, hs⟩ | ⟨error, -, hs⟩ <;>
    rw [hs] at h ⊢
  · have hwritten := (live_written (e := newEntry c.settings k payload lifetime kind now) hw).2
      (Or.inl ⟨rfl, rfl, rfl⟩)
    exact live_persist.2 ((drops_keepBudget _ now).live_of_contains
      (hf.written k now payload lifetime kind) hwritten h)
  · cases h

end Lookup

/-- **A look-up yields the latest payload and nothing else.** In a run of a cache that was opened
over a medium without a saved index, a look-up that finds something finds the latest payload of its
key, before its expiry. Conversely a payload that was just stored and kept is found, before its
expiry, when the medium can be read. -/
theorem get_run_eq_latest {medium : M}
    (hempty : ∀ entries, (Medium.loadIndex medium).1 = .ok entries → entries = [])
    (settings : CacheSettings) (start : Instant) (ops : List Operation) (k : String)
    (payload : Bytes) (now : Instant) :
    ((((openOn medium settings start).run ops).get k now).1 = some payload →
      ∃ expires, Latest (openOn medium settings start) ops k payload expires ∧ now < expires) ∧
    ∀ (lifetime : Option Duration) (kind : String) (stored : Instant),
      (((openOn medium settings start).run ops).store k payload lifetime kind stored).1 = true →
      now < stored.after (lifetime.getD (.ofSeconds settings.lifetime)) →
      (∃ found, (Medium.read (((openOn medium settings start).run ops).store k payload lifetime kind
        stored).2.medium k).1 = .ok found) →
      ((((openOn medium settings start).run ops).store k payload lifetime kind stored).2.get k
        now).1 = some payload := by
  constructor
  · intro h
    obtain ⟨e, hl, hnow⟩ := live_of_get h
    exact ⟨e.expires, live_run (openOn_index hempty) hl, hnow⟩
  · intro lifetime kind stored hkept hnow hread
    have hf := (filed_openOn medium settings start).run ops
    refine (live_store hf hkept).get ?_ hread
    change now < stored.after (lifetime.getD (.ofSeconds
      ((openOn medium settings start).run ops).settings.lifetime))
    rw [run_settings, openOn_settings]
    exact hnow

/-- A run in which the medium refuses the fifth call, and with it the second of two payloads. -/
def overwriteRefused : Cache (Unreliable Memory) × List Operation :=
  (openOn (.make .empty fun n _ => n == 4) ⟨100, 60⟩ ⟨0, 0⟩,
    [.store "k" [1] none "general" ⟨1, 0⟩, .store "k" [2] none "general" ⟨2, 0⟩])

/-- The first of the two payloads is still the latest one, and one that is stored after the run is
found in its turn. -/
theorem get_run_eq_latest_overwrite_refused :
    (∃ expires, Latest overwriteRefused.1 overwriteRefused.2 "k" [1] expires ∧
      (⟨3, 0⟩ : Instant) < expires) ∧
    (((overwriteRefused.1.run overwriteRefused.2).store "k" [1] none "general" ⟨3, 0⟩).2.get "k"
      ⟨4, 0⟩).1 = some [1] := by
  have hempty : ∀ entries, (Medium.loadIndex (Unreliable.make Memory.empty fun n _ => n == 4)).1 =
      .ok entries → entries = [] := fun _ h => (Except.ok.inj h).symm
  have hfound : ((overwriteRefused.1.run overwriteRefused.2).get "k" ⟨3, 0⟩).1 = some [1] := by
    decide +kernel
  have hkept : ((overwriteRefused.1.run overwriteRefused.2).store "k" [1] none "general"
      ⟨3, 0⟩).1 = true := by decide +kernel
  have hnow : (⟨4, 0⟩ : Instant) <
      Instant.after ⟨3, 0⟩ ((none : Option Duration).getD (.ofSeconds 60)) := by
    decide +kernel
  have hread : (Medium.read ((overwriteRefused.1.run overwriteRefused.2).store "k" [1] none
      "general" ⟨3, 0⟩).2.medium "k").1 = .ok (some [1]) := rfl
  exact ⟨(get_run_eq_latest hempty ⟨100, 60⟩ ⟨0, 0⟩ overwriteRefused.2 "k" [1] ⟨3, 0⟩).1 hfound,
    (get_run_eq_latest hempty ⟨100, 60⟩ ⟨0, 0⟩ overwriteRefused.2 "k" [1] ⟨4, 0⟩).2 none "general"
      ⟨3, 0⟩ hkept hnow ⟨_, hread⟩⟩

end Cache

end GraphReasoner
