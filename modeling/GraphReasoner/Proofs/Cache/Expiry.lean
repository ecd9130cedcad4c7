import GraphReasoner.Proofs.Cache.Described
import GraphReasoner.Proofs.Time.Lifetime

/-!
# From when on an entry is expired

The instant from which on an entry is expired is settled when its payload is written, and for good:
an operation may count a hit in an entry or take it away, but only the next payload under the same
key gives it another expiry (`GraphReasoner.Cache.entry_perform`, and
`GraphReasoner.Cache.Spares.expires_run` for a run). What is said of the entry of a payload that was
just stored therefore holds as long as there is one.

* `GraphReasoner.Cache.span` – the lifetime that a payload is stored for;
* `GraphReasoner.Cache.expiry_of_store` – the expiry is the end of that lifetime or the last
  instant, it decides alone whether the entry is a hit, and it never lies before the creation.
-/

namespace GraphReasoner

open GraphReasoner.Time (Instant Duration)

namespace Cache

/-- The lifetime that a payload is stored for: the one that was asked for, or that of the
settings. -/
def span (settings : CacheSettings) (lifetime : Option Duration) : Duration :=
  lifetime.getD (.ofSeconds settings.lifetime)

variable {M : Type} [Medium M] {c : Cache M} {k : String} {e : Entry}

/-! ### Where an entry comes from -/

/-- A look-up changes no entry but for counting a hit. -/
theorem entry_get (hf : Filed c.index) {key : String} {now : Instant}
    (he : (c.get key now).2.index.get? k = some e) :
    ∃ e₀, c.index.get? k = some e₀ ∧ (e = e₀ ∨ e = e₀.touched now) := by
  rcases get_cases c key now with ⟨hg, -⟩ | ⟨old, hold, ⟨-, hg⟩ | ⟨-, hrest⟩⟩
  · rw [hg] at he
    exact ⟨e, he, Or.inl rfl⟩
  · rw [hg, persist_index] at he
    exact ⟨e, hf.ordered.get?_of_sublist (drop_index_sublist c key) he, Or.inl rfl⟩
  rcases hrest with ⟨payload, m, -, hg⟩ | ⟨m, -, hg⟩ | ⟨error, m, -, hg⟩ <;> rw [hg] at he
  · change (c.index.insert key (old.touched now)).get? k = some e at he
    rw [Table.get?_insert] at he
    split at he
    · rename_i hk
      exact ⟨old, hk ▸ hold, Or.inr (Option.some.inj he).symm⟩
    · exact ⟨e, he, Or.inl rfl⟩
  · rw [persist_index] at he
    exact ⟨e, hf.ordered.get?_of_sublist List.filter_sublist he, Or.inl rfl⟩
  · exact ⟨e, he, Or.inl rfl⟩

/-- An operation writes a payload under a key. -/
def Writes (c : Cache M) (k : String) : Operation → Prop
  | .store key payload _ _ _ => key = k ∧ (Medium.write c.medium key payload).1 = .ok ()
  | .get .. | .remove _ | .clear | .contains .. | .entry _ | .size | .statistics _ | .flush => False

/-- Storing writes a payload and gives it a new entry, or leaves the entry that is there. -/
theorem entry_store (hf : Filed c.index) {key kind : String} {payload : Bytes}
    {lifetime : Option Duration} {now : Instant}
    (he : (c.store key payload lifetime kind now).2.index.get? k = some e) :
    c.Writes k (.store key payload lifetime kind now) ∧
        e = newEntry c.settings key payload lifetime kind now ∨
      ¬c.Writes k (.store key payload lifetime kind now) ∧ c.index.get? k = some e := by
  rcases store_cases c key now payload lifetime kind with ⟨hw, hs⟩ | ⟨error, hw, hs⟩ <;>
    rw [hs] at he
  · rw [persist_index] at he
    have hwritten := (hf.written key now payload lifetime kind).ordered.get?_of_sublist
      (drops_keepBudget _ now).index_sublist he
    change (c.index.insert key _).get? k = some e at hwritten
    rw [Table.get?_insert] at hwritten
    split at hwritten
    · rename_i hk
      exact Or.inl ⟨⟨hk, hw⟩, (Option.some.inj hwritten).symm⟩
    · rename_i hk
      exact Or.inr ⟨fun h => hk h.1, hwritten⟩
  · refine Or.inr ⟨fun h => ?_, he⟩
    cases hw.symm.trans h.2

/-- **Where an entry comes from**: the operation has written its payload, or it was there before,
perhaps with fewer hits. -/
theorem entry_perform (hf : Filed c.index) {op : Operation}
    (he : (c.perform op).2.index.get? k = some e) :
    c.Writes k op ∨
      ∃ e₀, c.index.get? k = some e₀ ∧ (e = e₀ ∨ ∃ now, e = e₀.touched now) := by
  cases op with
  | get key now =>
    obtain ⟨e₀, he₀, heq⟩ := entry_get hf he
    exact Or.inr ⟨e₀, he₀, heq.imp_right fun h => ⟨now, h⟩⟩
  | store key payload lifetime kind now =>
    rcases entry_store hf he with ⟨hwrites, -⟩ | ⟨-, hold⟩
    · exact Or.inl hwrites
    · exact Or.inr ⟨e, hold, Or.inl rfl⟩
  | remove key =>
    change (c.remove key).2.index.get? k = some e at he
    rw [remove_snd, persist_index] at he
    exact Or.inr ⟨e, hf.ordered.get?_of_sublist (drop_index_sublist c key) he, Or.inl rfl⟩
  | clear =>
    change c.clear.index.get? k = some e at he
    rw [clear_index] at he
    cases he
  | flush =>
    change c.flush.index.get? k = some e at he
    rw [flush_index] at he
    exact Or.inr ⟨e, he, Or.inl rfl⟩
  | contains | entry | size | statistics => exact Or.inr ⟨e, he, Or.inl rfl⟩

/-- **A run that spares a key**: no operation of it writes a payload there. -/
def Spares (c : Cache M) (k : String) : List Operation → Prop
  | [] => True
  | op :: ops => ¬c.Writes k op ∧ Spares (c.perform op).2 k ops

/-- **As long as a key is spared its entry keeps its dates.** -/
theorem Spares.expires_run (hf : Filed c.index) {ops : List Operation} (hops : c.Spares k ops)
    (he : (c.run ops).index.get? k = some e) :
    ∃ e₀, c.index.get? k = some e₀ ∧ e.created = e₀.created ∧ e.expires = e₀.expires := by
  induction ops generalizing c with
  | nil => exact ⟨e, he, rfl, rfl⟩
  | cons op ops ih =>
    obtain ⟨e₁, he₁, hcreated, hexpires⟩ := ih (hf.perform op) hops.2 he
    rcases entry_perform hf he₁ with hwrites | ⟨e₀, he₀, rfl | ⟨now, rfl⟩⟩
    · exact absurd hwrites hops.1
    · exact ⟨e₁, he₀, hcreated, hexpires⟩
    · exact ⟨e₀, he₀, hcreated, hexpires⟩

/-! ### What the expiry decides -/

omit [Medium M] in
/-- An entry is there before its expiry. -/
theorem contains_iff_lt_expires (he : c.index.get? k = some e) {t : Instant} :
    c.contains k t = true ↔ t < e.expires := by
  have hentry : c.entry? k = some e := he
  rw [contains, hentry, ← Instant.not_le, decide_eq_true_eq]
  rfl

theorem get_of_expires_le (he : c.index.get? k = some e) {t : Instant} (ht : e.expires ≤ t) :
    (c.get k t).1 = none := by
  rcases get_cases c k t with ⟨hg, -⟩ | ⟨old, hold, ⟨-, hg⟩ | ⟨hfresh, -⟩⟩
  · rw [hg]
  · rw [hg]
  · obtain rfl := Option.some.inj (he.symm.trans hold)
    exact absurd ht hfresh

/-! ### Storing -/

section Store

variable {key kind : String} {payload : Bytes} {lifetime : Option Duration} {now : Instant}
  (hw : (Medium.write c.medium key payload).1 = .ok ())
include hw

/-- The answer tells whether the payload has an entry in the end. -/
theorem store_fst_iff_exists : (c.store key payload lifetime kind now).1 = true ↔
    ∃ e, (c.store key payload lifetime kind now).2.index.get? key = some e := by
  rw [store_of_write hw, persist_index, Table.contains_iff]

/-- While the budget is kept nothing is taken away, be it expired. -/
theorem store_fst_of_fits
    (hfits : (c.written key now payload lifetime kind).totalSize ≤ c.settings.budget) :
    (c.store key payload lifetime kind now).1 = true := by
  have hall : (c.written key now payload lifetime kind).keepBudget now =
      c.written key now payload lifetime kind := by
    rw [keepBudget]
    exact if_pos hfits
  rw [store_of_write hw, hall, Table.contains_iff]
  exact ⟨_, (Table.get?_insert ..).trans (if_pos rfl)⟩

/-- **The dates of what was stored**, as long as its key is spared. -/
theorem dates_of_store (hf : Filed c.index) {ops : List Operation}
    (hops : (c.store key payload lifetime kind now).2.Spares key ops)
    (he : ((c.store key payload lifetime kind now).2.run ops).index.get? key = some e) :
    e.created = now ∧ e.expires = now.after (span c.settings lifetime) := by
  obtain ⟨e₀, he₀, hcreated, hexpires⟩ :=
    hops.expires_run (hf.store key payload lifetime kind now) he
  rcases entry_store hf he₀ with ⟨-, rfl⟩ | ⟨hno, -⟩
  · exact ⟨hcreated, hexpires⟩
  · exact absurd ⟨rfl, hw⟩ hno

/-- **Expiries saturate and never precede creations.** Let a payload be written in a reachable
cache, at any reading of the clock and for any lifetime. It is kept exactly if it has an entry
afterwards, and it is kept whenever the budget allows it. As long as nothing else is written under
its key, its entry says that it was created at the reading and expires at the end of the lifetime,
or at the last instant when that comes first or the lifetime is too long to be counted. So the
expiry is not before the creation, it is not before that of a shorter lifetime, and before the last
instant only a payload without any lifetime is expired when it is created. Up to the expiry the key
is there at every reading of the clock; from it on the key is a miss. -/
theorem expiry_of_store (hc : c.Reachable) (hnow : now.IsReading) :
    let stored := c.store key payload lifetime kind now
    (stored.1 = true ↔ ∃ e, stored.2.index.get? key = some e) ∧
    ((c.written key now payload lifetime kind).totalSize ≤ c.settings.budget → stored.1 = true) ∧
    ∀ ops e, stored.2.Spares key ops → (stored.2.run ops).index.get? key = some e →
      e.created = now ∧ now.Saturates (span c.settings lifetime) e.expires ∧
      e.created ≤ e.expires ∧
      (∀ (shorter : Option Duration) (e' : Entry),
        (c.store key payload shorter kind now).2.index.get? key = some e' →
        (span c.settings shorter).nanos ≤ (span c.settings lifetime).nanos →
        e'.expires ≤ e.expires) ∧
      (now < Instant.latest → (e.Expired e.created ↔ (span c.settings lifetime).nanos = 0)) ∧
      ∀ t, (t < e.expires → (stored.2.run ops).contains key t = true) ∧
        (e.expires ≤ t → (stored.2.run ops).contains key t = false ∧
          ((stored.2.run ops).get key t).1 = none) := by
  intro stored
  refine ⟨store_fst_iff_exists hw, store_fst_of_fits hw, fun ops e hops he => ?_⟩
  obtain ⟨hcreated, hexpires⟩ := dates_of_store hw hc.filed hops he
  refine ⟨hcreated, ?_, ?_, fun shorter e' he' hle => ?_, fun hlast => ?_, fun t => ⟨?_, ?_⟩⟩
  · exact hnow.saturates_iff.2 hexpires
  · rw [hcreated, hexpires]
    exact hnow.le_after _
  · have hnone : (c.store key payload shorter kind now).2.Spares key [] := trivial
    rw [hexpires, (dates_of_store hw hc.filed hnone he').2]
    exact hnow.after_mono hle
  · rw [Entry.Expired, hcreated, hexpires]
    exact hnow.after_le_self_iff hlast
  · exact (contains_iff_lt_expires he).2
  · intro ht
    refine ⟨?_, get_of_expires_le he ht⟩
    rw [← Bool.not_eq_true, contains_iff_lt_expires he, ← Instant.not_le, not_not]
    exact ht

end Store

/-- A cache with a payload that is stored for as many seconds as a word of 64 bits can count. -/
def endless : Bool × Cache Memory :=
  (openOn .empty ⟨100, 60⟩ ⟨0, 0⟩).store "k" [1] (some (.ofSeconds 18446744073709551615)) "general"
    ⟨10, 500⟩

/-- Another payload and a look-up later it still expires at the last instant. -/
theorem expiry_of_store_endless :
    let later := endless.2.run [.store "j" [2] none "general" ⟨20, 0⟩, .get "k" ⟨30, 0⟩]
    endless.1 = true ∧ ∃ e, later.index.get? "k" = some e ∧ e.created = ⟨10, 500⟩ ∧
      e.expires = Instant.latest ∧ later.contains "k" ⟨Instant.latest.seconds, 0⟩ = true ∧
      (later.get "k" Instant.latest).1 = none := by
  intro later
  have hc : (openOn Memory.empty ⟨100, 60⟩ ⟨0, 0⟩).Reachable := ⟨_, _, _, [], rfl⟩
  have hnow : Instant.IsReading ⟨10, 500⟩ := by decide +kernel
  have hw : (Medium.write (openOn Memory.empty ⟨100, 60⟩ ⟨0, 0⟩).medium "k" [1]).1 = .ok () := rfl
  obtain ⟨-, hfits, hrun⟩ := @expiry_of_store _ _ _ "k" "general" [1]
    (some (.ofSeconds 18446744073709551615)) ⟨10, 500⟩ hw hc hnow
  obtain ⟨e, he⟩ : ∃ e, later.index.get? "k" = some e :=
    Table.contains_iff.1 (by decide +kernel : later.index.contains "k" = true)
  have hspares : endless.2.Spares "k" [.store "j" [2] none "general" ⟨20, 0⟩, .get "k" ⟨30, 0⟩] :=
    ⟨fun h => absurd h.1 (by decide), id, trivial⟩
  obtain ⟨hcreated, hsaturates, -, -, -, hdecides⟩ := hrun _ e hspares he
  have hexpires : e.expires = Instant.latest := hsaturates.uncounted (by decide +kernel)
  refine ⟨hfits (by decide +kernel), e, he, hcreated, hexpires, (hdecides _).1 ?_,
    ((hdecides _).2 ?_).2⟩
  · rw [hexpires]
    decide +kernel
  · rw [hexpires]
    decide +kernel

end Cache

end GraphReasoner
