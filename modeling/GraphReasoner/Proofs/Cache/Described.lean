import GraphReasoner.Proofs.Cache.Latest
import GraphReasoner.Proofs.Cache.Statistics

/-!
# What the index says of the payloads

An entry makes three statements about its payload: under which key it lies, how long it is, and how
often it was asked for. Nothing checks them when they are used, and the budget is kept by adding up
the sizes of the entries. Over a faithful medium they are true in every state a cache can get into
(`GraphReasoner.Cache.described_run`), because a payload and its entry come and go in an order that
leaves no entry without its payload, whatever call fails on the way.

The first two statements are an invariant of every operation (`GraphReasoner.Cache.Described`). The
third one is about a run: `GraphReasoner.Cache.hitsSince` counts the hits of a key from the last
payload that was written there. The statistics are sums over the entries, so they are true with
them.
-/

namespace GraphReasoner

open GraphReasoner.Time (Instant Duration)
open FaithfulMedium (held)

theorem Table.Ordered.get?_of_sublist {V : Type} {t rest : Table V} (ht : t.Ordered)
    (hs : rest.Sublist t) {key : String} {value : V} (h : rest.get? key = some value) :
    t.get? key = some value :=
  ht.mem_iff.1 (hs.subset (Table.mem_of_get? h))

namespace Cache

variable {M : Type}

/-! ### Payloads and their entries -/

section Described

variable [FaithfulMedium M] {c : Cache M}

/-- **The index describes its payloads**: every entry lies under its own key, and the medium holds a
payload of its size there. -/
structure Described (c : Cache M) : Prop where
  filed : Filed c.index
  live : ∀ {k e}, c.index.get? k = some e → ∃ payload, c.Live k e payload ∧ payload.length = e.size

namespace Described

theorem of_index (h : c.index = []) : c.Described where
  filed := h ▸ Filed.nil
  live he := by
    rw [h] at he
    cases he

theorem persist (h : c.Described) : c.persist.Described where
  filed := (persist_index c).symm ▸ h.filed
  live he := by
    rw [persist_index] at he
    obtain ⟨payload, hl, hsize⟩ := h.live he
    exact ⟨payload, live_persist.2 hl, hsize⟩

/-- Drops take entries and payloads together. -/
theorem drops {c' : Cache M} (h : c.Described) (hd : Drops c c') : c'.Described where
  filed := h.filed.sublist hd.index_sublist
  live he := by
    have hold := h.filed.ordered.get?_of_sublist hd.index_sublist he
    obtain ⟨payload, hl, hsize⟩ := h.live hold
    have hstays := hd.live_of_contains h.filed hl (Table.contains_iff.2 ⟨_, he⟩)
    exact ⟨payload, hstays, hsize⟩

theorem drop (h : c.Described) (key : String) : (c.drop key).2.Described :=
  h.drops (.single ⟨key, rfl⟩)

/-- A change of the medium that leaves every payload, such as a call that has failed. -/
theorem medium (h : c.Described) {m : M} (hm : held m = held c.medium)
    (dirty : Bool) : ({ c with medium := m, dirty } : Cache M).Described where
  filed := h.filed
  live he := by
    obtain ⟨payload, hl, hsize⟩ := h.live he
    exact ⟨payload, ⟨he, hm ▸ hl.2⟩, hsize⟩

theorem written (h : c.Described) {key : String} {now : Instant} {payload : Bytes}
    {lifetime : Option Duration} {kind : String}
    (hw : (Medium.write c.medium key payload).1 = .ok ()) :
    (c.written key now payload lifetime kind).Described where
  filed := h.filed.written key now payload lifetime kind
  live := by
    intro k e he
    have hentry : (c.index.insert key (newEntry c.settings key payload lifetime kind now)).get? k =
        some e := he
    rw [Table.get?_insert] at hentry
    by_cases hk : key = k
    · rw [if_pos hk] at hentry
      obtain rfl := Option.some.inj hentry
      exact ⟨payload, (live_written hw).2 (Or.inl ⟨hk, rfl, rfl⟩), rfl⟩
    · rw [if_neg hk] at hentry
      obtain ⟨old, hl, hsize⟩ := h.live hentry
      exact ⟨old, (live_written hw).2 (Or.inr ⟨hk, hl⟩), hsize⟩

theorem get (h : c.Described) (key : String) (now : Instant) : (c.get key now).2.Described := by
  have hread := FaithfulMedium.held_read c.medium key
  rcases get_cases c key now with ⟨hg, -⟩ | ⟨e, he, ⟨-, hg⟩ | ⟨-, hrest⟩⟩
  · rw [hg]
    exact h
  · rw [hg]
    exact (h.drop key).persist
  rcases hrest with ⟨payload, m, hm, hg⟩ | ⟨m, hm, hg⟩ | ⟨error, m, hm, hg⟩ <;>
    rw [hg] <;> rw [hm] at hread
  · -- the entry is touched, which changes neither its key nor its size
    have hkey : e.key = key := h.filed.key_eq he
    refine ⟨h.filed.insert (e := e.touched now) hkey, fun {k e'} he' => ?_⟩
    change (c.index.insert key (e.touched now)).get? k = some e' at he'
    have hentry := he'
    rw [Table.get?_insert] at hentry
    by_cases hk : key = k
    · rw [if_pos hk] at hentry
      obtain rfl := Option.some.inj hentry
      obtain ⟨old, hl, hsize⟩ := h.live he
      exact ⟨old, ⟨he', hread ▸ hk ▸ hl.2⟩, hsize⟩
    · rw [if_neg hk] at hentry
      obtain ⟨old, hl, hsize⟩ := h.live hentry
      exact ⟨old, ⟨he', hread ▸ hl.2⟩, hsize⟩
  · -- an entry whose payload is gone does not exist
    obtain ⟨payload, hl, -⟩ := h.live he
    have hnone : none = held c.medium key := FaithfulMedium.read_ok (by rw [hm])
    rw [hl.2] at hnone
    cases hnone
  · exact h.medium hread c.dirty

theorem store (h : c.Described) (key : String) (payload : Bytes) (lifetime : Option Duration)
    (kind : String) (now : Instant) : (c.store key payload lifetime kind now).2.Described := by
  rcases store_cases c key now payload lifetime kind with ⟨hw, hs⟩ | ⟨error, hw, hs⟩ <;> rw [hs]
  · exact ((h.written hw).drops (drops_keepBudget _ now)).persist
  · exact h.medium (FaithfulMedium.held_write_error hw) c.dirty

/-- **Every operation leaves the index describing its payloads.** -/
theorem perform (h : c.Described) (op : Operation) : (c.perform op).2.Described := by
  cases op with
  | get key now => exact h.get key now
  | store key payload lifetime kind now => exact h.store key payload lifetime kind now
  | remove key => exact (h.drop key).persist
  | clear => exact of_index (clear_index c)
  | flush =>
    change c.flush.Described
    unfold flush
    split
    · exact h.persist
    · exact h
  | contains | entry | size | statistics => exact h

theorem run (h : c.Described) (ops : List Operation) : (c.run ops).Described := by
  induction ops generalizing c with
  | nil => exact h
  | cons op ops ih => exact ih (h.perform op)

end Described

/-! ### The statistics of described payloads -/

/-- The payloads that have an entry, in the order of their keys. -/
def payloads (c : Cache M) : List Bytes :=
  c.index.keys.filterMap (held c.medium)

/-- Payload by payload, what is indexed has the sizes of the entries. -/
theorem Described.length_payloads (h : c.Described) :
    c.payloads.map List.length = c.index.values.map Entry.size := by
  have hpayload : ∀ item ∈ c.index, ∃ payload, held c.medium item.1 = some payload ∧
      payload.length = item.2.size := fun item hitem => by
    obtain ⟨payload, hl, hsize⟩ := h.live (h.filed.ordered.mem_iff.1 hitem)
    exact ⟨payload, hl.2, hsize⟩
  rw [payloads, Table.keys, Table.values]
  generalize c.index = index at hpayload
  induction index with
  | nil => rfl
  | cons item index ih =>
    obtain ⟨⟨payload, hheld, hsize⟩, hrest⟩ := List.forall_mem_cons.1 hpayload
    rw [List.map_cons, List.filterMap_cons_some hheld, List.map_cons, hsize, ih hrest]
    rfl

end Described

/-! ### Hits -/

section Hits

variable [Medium M] {c : Cache M} {k : String}

/-- The count of the hits of a key after an operation: one more after a look-up that finds
something, none after a payload is written there. -/
def countHit (c : Cache M) (k : String) (n : Nat) : Operation → Nat
  | .get key now => if key = k ∧ (c.get key now).1.isSome then n + 1 else n
  | .store key payload _ _ _ =>
    if key = k ∧ (Medium.write c.medium key payload).1.isOk then 0 else n
  | .remove _ | .clear | .contains .. | .entry _ | .size | .statistics _ | .flush => n

/-- The count of the hits of a key at the end of a run, begun with a number. -/
def countHits (c : Cache M) (k : String) (n : Nat) : List Operation → Nat
  | [] => n
  | op :: ops => countHits (c.perform op).2 k (c.countHit k n op) ops

/-- **The hits of a key** in a run since the last payload that was written there. -/
def hitsSince (c : Cache M) (k : String) (ops : List Operation) : Nat :=
  c.countHits k 0 ops

theorem countHits_concat (c : Cache M) (k : String) (n : Nat) (ops : List Operation)
    (op : Operation) :
    c.countHits k n (ops ++ [op]) = (c.run ops).countHit k (c.countHits k n ops) op := by
  induction ops generalizing c n with
  | nil => rfl
  | cons first ops ih => exact ih (c.perform first).2 (c.countHit k n first)

theorem hitsSince_concat (c : Cache M) (k : String) (ops : List Operation) (op : Operation) :
    c.hitsSince k (ops ++ [op]) = (c.run ops).countHit k (c.hitsSince k ops) op :=
  countHits_concat c k 0 ops op

omit [Medium M] in
/-- An entry that is there after some drops was there before them. -/
theorem accesses_of_sublist {n : Nat} (hf : Filed c.index)
    (hn : ∀ e, c.index.get? k = some e → e.accesses = n) {rest : Table Entry}
    (hs : rest.Sublist c.index) {e : Entry} (he : rest.get? k = some e) : e.accesses = n :=
  hn e (hf.ordered.get?_of_sublist hs he)

/-- **An operation counts its hit in the entry.** -/
theorem accesses_perform {n : Nat} (hf : Filed c.index)
    (hn : ∀ e, c.index.get? k = some e → e.accesses = n) {op : Operation} {e : Entry}
    (he : (c.perform op).2.index.get? k = some e) : e.accesses = c.countHit k n op := by
  cases op with
  | get key now =>
    change (c.get key now).2.index.get? k = some e at he
    rw [countHit]
    rcases get_cases c key now with ⟨hg, -⟩ | ⟨old, hold, ⟨-, hg⟩ | ⟨-, hrest⟩⟩
    · rw [hg] at he ⊢
      rw [if_neg (by simp)]
      exact hn e he
    · rw [hg, persist_index] at he
      rw [hg, if_neg (by simp)]
      exact accesses_of_sublist hf hn (drop_index_sublist c key) he
    rcases hrest with ⟨payload, m, -, hg⟩ | ⟨m, -, hg⟩ | ⟨error, m, -, hg⟩ <;> rw [hg] at he ⊢
    · -- the hit is counted, in the entry of this key and in no other
      change (c.index.insert key (old.touched now)).get? k = some e at he
      rw [Table.get?_insert] at he
      by_cases hk : key = k
      · rw [if_pos hk] at he
        obtain rfl := Option.some.inj he
        rw [if_pos ⟨hk, rfl⟩]
        exact congrArg (· + 1) (hn old (hk ▸ hold))
      · rw [if_neg hk] at he
        rw [if_neg fun h => hk h.1]
        exact hn e he
    · rw [persist_index] at he
      rw [if_neg (by simp)]
      exact accesses_of_sublist hf hn List.filter_sublist he
    · rw [if_neg (by simp)]
      exact hn e he
  | store key payload lifetime kind now =>
    change (c.store key payload lifetime kind now).2.index.get? k = some e at he
    rw [countHit]
    rcases store_cases c key now payload lifetime kind with ⟨hw, hs⟩ | ⟨error, hw, hs⟩ <;>
      rw [hs] at he <;> rw [hw]
    · rw [persist_index] at he
      have hwritten := (hf.written key now payload lifetime kind).ordered.get?_of_sublist
        (drops_keepBudget _ now).index_sublist he
      change (c.index.insert key _).get? k = some e at hwritten
      rw [Table.get?_insert] at hwritten
      by_cases hk : key = k
      · rw [if_pos hk] at hwritten
        rw [if_pos ⟨hk, rfl⟩, ← Option.some.inj hwritten]
        rfl
      · rw [if_neg hk] at hwritten
        rw [if_neg fun h => hk h.1]
        exact hn e hwritten
    · rw [if_neg fun h => Bool.false_ne_true h.2]
      exact hn e he
  | remove key =>
    change (c.remove key).2.index.get? k = some e at he
    rw [remove_snd, persist_index] at he
    exact accesses_of_sublist hf hn (drop_index_sublist c key) he
  | clear =>
    change c.clear.index.get? k = some e at he
    rw [clear_index] at he
    cases he
  | flush =>
    change c.flush.index.get? k = some e at he
    rw [flush_index] at he
    exact hn e he
  | contains | entry | size | statistics => exact hn e he

/-- **What an entry counts is how often its payload was found.** -/
theorem accesses_run (hempty : c.index = []) (ops : List Operation) {e : Entry}
    (he : (c.run ops).index.get? k = some e) : e.accesses = c.hitsSince k ops := by
  have hf : Filed c.index := hempty ▸ Filed.nil
  induction ops using List.reverseRecOn generalizing e with
  | nil =>
    rw [run_nil, hempty] at he
    cases he
  | append_singleton ops op ih =>
    rw [run_concat] at he
    rw [hitsSince_concat]
    exact accesses_perform (hf.run ops) (fun _ => ih) he

end Hits

variable [FaithfulMedium M]

/-- **The index is true of its payloads.** Take any run of a cache that was opened over a medium
without a saved index, in which any call of the medium may fail. Each entry lies under its own key,
has the length of the payload held there and counts its hits since that payload was written. The
statistics count the payloads that are indexed and their bytes, each kind has the numbers of its own
entries, and over the kinds they add up: counts and sizes to the totals, accesses to all hits of the
payloads that are left. -/
theorem described_run {medium : M}
    (hempty : ∀ entries, (Medium.loadIndex medium).1 = .ok entries → entries = [])
    (settings : CacheSettings) (start : Instant) (ops : List Operation) (now : Instant) :
    let opened := openOn medium settings start
    let c := opened.run ops
    let numbers := c.statistics now
    (∀ k e, c.index.get? k = some e →
      e.key = k ∧ e.accesses = opened.hitsSince k ops ∧
        ∃ payload, held c.medium k = some payload ∧ payload.length = e.size) ∧
    numbers.count = c.payloads.length ∧
    numbers.size = (c.payloads.map List.length).sum ∧
    (∀ kind row, numbers.kinds.get? kind = some row →
      row = Entry.numbers (c.index.values.filter fun e => e.kind == kind)) ∧
    (numbers.kinds.values.map KindStatistics.count).sum = numbers.count ∧
    (numbers.kinds.values.map KindStatistics.size).sum = numbers.size ∧
    (numbers.kinds.values.map KindStatistics.accesses).sum =
      (c.index.keys.map fun k => opened.hitsSince k ops).sum := by
  intro opened c numbers
  have hopened : opened.index = [] := openOn_index hempty
  have hd : c.Described := (Described.of_index hopened).run ops
  have haccesses : ∀ {k e}, c.index.get? k = some e → e.accesses = opened.hitsSince k ops :=
    accesses_run hopened ops
  have hlengths := hd.length_payloads
  have hcount : numbers.count = c.index.values.length := (List.length_map _).symm
  have hsize : numbers.size = (c.index.values.map Entry.size).sum := Entry.totalSize_eq_sum _
  refine ⟨fun k e he => ?_, ?_, ?_, fun kind row hrow => ?_, ?_, ?_, ?_⟩
  · obtain ⟨payload, hl, hpayload⟩ := hd.live he
    exact ⟨hd.filed.key_eq he, haccesses he, payload, hl.2, hpayload⟩
  · rw [hcount, ← List.length_map Entry.size, ← hlengths, List.length_map]
  · rw [hsize, hlengths]
  · have hkind := Entry.get?_kindStatistics c.index.values kind
    rw [show (Entry.kindStatistics c.index.values).get? kind = some row from hrow] at hkind
    split at hkind
    · cases hkind
    · exact Option.some.inj hkind
  · rw [hcount]
    exact (@Entry.sum_kindStatistics _ (fun _ => 1) rfl (fun _ _ => rfl) _).trans (by simp)
  · rw [hsize]
    exact Entry.sum_kindStatistics rfl (fun _ _ => rfl) _
  · refine (Entry.sum_kindStatistics rfl (fun _ _ => rfl) c.index.values).trans ?_
    rw [Table.values, Table.keys, List.map_map, List.map_map]
    exact congrArg List.sum (List.map_congr_left fun item hitem =>
      haccesses (hd.filed.ordered.mem_iff.1 hitem))

/-- A cache over a medium that refuses its sixth call and its seventh. -/
def hesitant : Cache (Unreliable Memory) :=
  openOn (.make .empty fun n _ => n == 5 || n == 6) ⟨100, 60⟩ ⟨0, 0⟩

/-- Operations of which the second look-up and the overwriting make these calls. -/
def hesitantRun : List Operation :=
  [.store "k" [1, 2] none "general" ⟨1, 0⟩, .get "k" ⟨2, 0⟩, .get "k" ⟨3, 0⟩,
    .store "k" [3] none "answer" ⟨4, 0⟩, .get "k" ⟨5, 0⟩]

/-- The entry counts two hits and describes the payload that was not overwritten, and so do the
statistics. -/
theorem described_run_calls_refused :
    (∃ e, (hesitant.run hesitantRun).index.get? "k" = some e ∧ e.key = "k" ∧
      e.accesses = hesitant.hitsSince "k" hesitantRun ∧
      ∃ payload, held (hesitant.run hesitantRun).medium "k" = some payload ∧
        payload.length = e.size) ∧
    hesitant.hitsSince "k" hesitantRun = 2 ∧ (hesitant.run hesitantRun).payloads = [[1, 2]] ∧
    ((hesitant.run hesitantRun).statistics ⟨6, 0⟩).count =
      (hesitant.run hesitantRun).payloads.length ∧
    (((hesitant.run hesitantRun).statistics ⟨6, 0⟩).kinds.values.map KindStatistics.accesses).sum =
      ((hesitant.run hesitantRun).index.keys.map fun k => hesitant.hitsSince k hesitantRun).sum := by
  have hempty : ∀ entries, (Medium.loadIndex (Unreliable.make Memory.empty
      fun n _ => n == 5 || n == 6)).1 = .ok entries → entries = [] :=
    fun _ h => (Except.ok.inj h).symm
  obtain ⟨hentry, hcount, -, -, -, -, haccesses⟩ :=
    described_run hempty ⟨100, 60⟩ ⟨0, 0⟩ hesitantRun ⟨6, 0⟩
  have hk : (hesitant.run hesitantRun).index.contains "k" = true := by decide +kernel
  obtain ⟨e, he⟩ := Table.contains_iff.1 hk
  exact ⟨⟨e, he, hentry "k" e he⟩, by decide +kernel, by decide +kernel, hcount, haccesses⟩

end Cache

end GraphReasoner
