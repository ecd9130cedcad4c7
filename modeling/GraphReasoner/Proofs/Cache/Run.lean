import GraphReasoner.Cache.Statistics
import GraphReasoner.Proofs.Cache.Index

/-!
# Runs of a cache

A cache is used by one operation after another. `GraphReasoner.Cache.Operation` names the
operations, `GraphReasoner.Cache.perform` carries one out, and `GraphReasoner.Cache.run` a list of
them. Readings of the clock are part of the operations and are not tied to each other: a clock may
stand still or go back.

A state is reachable (`GraphReasoner.Cache.Reachable`) when some run leads to it from a cache that
was opened over some medium. The medium may hold any index when it is opened, also one that no cache
has written, and it may fail in any call. What holds of all reachable states without a word about
the medium is `GraphReasoner.Cache.Reachable.filed`.
-/

namespace GraphReasoner

open GraphReasoner.Time (Instant Duration)

namespace Cache

/-- What a cache can be asked. -/
inductive Operation
  | get (key : String) (now : Instant)
  | store (key : String) (payload : Bytes) (lifetime : Option Duration) (kind : String)
      (now : Instant)
  | remove (key : String)
  | clear
  | contains (key : String) (now : Instant)
  | entry (key : String)
  | size
  | statistics (now : Instant)
  | flush

/-- What a cache answers. -/
inductive Reply
  | payload (found : Option Bytes)
  | flag (value : Bool)
  | entry (found : Option Entry)
  | count (n : Nat)
  | statistics (s : CacheStatistics)
  | done
deriving DecidableEq

variable {M : Type} [Medium M]

/-- Carries out an operation. -/
def perform (c : Cache M) : Operation → Reply × Cache M
  | .get key now => (.payload (c.get key now).1, (c.get key now).2)
  | .store key payload lifetime kind now =>
    (.flag (c.store key payload lifetime kind now).1, (c.store key payload lifetime kind now).2)
  | .remove key => (.flag (c.remove key).1, (c.remove key).2)
  | .clear => (.done, c.clear)
  | .contains key now => (.flag (c.contains key now), c)
  | .entry key => (.entry (c.entry? key), c)
  | .size => (.count c.size, c)
  | .statistics now => (.statistics (c.statistics now), c)
  | .flush => (.done, c.flush)

/-- Carries out operations one after another. -/
def run (c : Cache M) (ops : List Operation) : Cache M :=
  ops.foldl (fun c op => (c.perform op).2) c

@[simp] theorem run_nil (c : Cache M) : c.run [] = c := rfl

theorem run_append (c : Cache M) (ops more : List Operation) :
    c.run (ops ++ more) = (c.run ops).run more :=
  List.foldl_append

@[simp] theorem run_concat (c : Cache M) (ops : List Operation) (op : Operation) :
    c.run (ops ++ [op]) = ((c.run ops).perform op).2 :=
  run_append c ops [op]

/-- **The last event of a kind in a run**: an operation that does `P` to the state it finds, with no
operation after it that does `Q`. -/
def Since (c : Cache M) (P Q : Cache M → Operation → Prop) (ops : List Operation) : Prop :=
  ∃ before op after, ops = before ++ op :: after ∧ P (c.run before) op ∧
    ∀ middle later rest, after = middle ++ later :: rest →
      ¬Q (c.run (before ++ op :: middle)) later

section Since

variable {c : Cache M} {P Q : Cache M → Operation → Prop} {ops : List Operation} {op : Operation}

theorem not_since_nil : ¬c.Since P Q [] := by
  rintro ⟨before, op, after, heq, -⟩
  simp at heq

/-- The last operation of a run is the event, or the event came before and was not undone. -/
theorem since_concat :
    c.Since P Q (ops ++ [op]) ↔ P (c.run ops) op ∨ c.Since P Q ops ∧ ¬Q (c.run ops) op := by
  constructor
  · rintro ⟨before, event, after, heq, hevent, hafter⟩
    rcases List.eq_nil_or_concat after with rfl | ⟨front, last, rfl⟩
    · obtain ⟨rfl, hlast⟩ := List.append_inj' heq rfl
      obtain rfl := List.singleton_inj.1 hlast
      exact Or.inl hevent
    · have hsplit : ops ++ [op] = (before ++ event :: front) ++ [last] := by simpa using heq
      obtain ⟨rfl, hlast⟩ := List.append_inj' hsplit rfl
      obtain rfl := List.singleton_inj.1 hlast
      refine Or.inr ⟨⟨before, event, front, rfl, hevent, fun middle later rest hfront => ?_⟩,
        hafter front op [] List.concat_eq_append⟩
      exact hafter middle later (rest ++ [op]) (by simp [hfront])
  · rintro (hevent | ⟨⟨before, event, after, rfl, hevent, hafter⟩, hlast⟩)
    · exact ⟨ops, op, [], rfl, hevent, fun middle later rest heq => by simp at heq⟩
    · refine ⟨before, event, after ++ [op], by simp, hevent, fun middle later rest heq => ?_⟩
      rcases List.eq_nil_or_concat rest with rfl | ⟨front, last, rfl⟩
      · obtain ⟨rfl, hlater⟩ := List.append_inj' heq rfl
        obtain rfl := List.singleton_inj.1 hlater
        exact hlast
      · have hsplit : after ++ [op] = (middle ++ later :: front) ++ [last] := by simpa using heq
        exact hafter middle later front (List.append_inj' hsplit rfl).1

end Since

/-- **A reachable state**: some run leads to it from a cache that was opened over a medium. -/
def Reachable (c : Cache M) : Prop :=
  ∃ (medium : M) (settings : CacheSettings) (now : Instant) (ops : List Operation),
    c = (openOn medium settings now).run ops

/-! ### The operations one by one -/

theorem openOn_settings (medium : M) (settings : CacheSettings) (now : Instant) :
    (openOn medium settings now).settings = settings := by
  simp only [openOn, persist_settings, (drops_purge _ now).settings]

theorem filed_openOn (medium : M) (settings : CacheSettings) (now : Instant) :
    Filed (openOn medium settings now).index := by
  simp only [openOn, persist_index]
  exact (Filed.table _).sublist (drops_purge _ now).index_sublist

variable {c : Cache M}

/-- **What looking a payload up can do**: nothing, when there is no entry or the medium cannot be
read; drop the entry, when it is expired; count the hit; or forget an entry whose payload is
gone. -/
theorem get_cases (c : Cache M) (key : String) (now : Instant) :
    c.get key now = (none, c) ∧ c.index.get? key = none ∨
    ∃ e, c.index.get? key = some e ∧
      (e.Expired now ∧ c.get key now = (none, (c.drop key).2.persist) ∨
      ¬e.Expired now ∧
        ((∃ payload m, Medium.read c.medium key = (.ok (some payload), m) ∧
          c.get key now = (some payload,
            { c with medium := m, index := c.index.insert key (e.touched now), dirty := true })) ∨
        (∃ m, Medium.read c.medium key = (.ok none, m) ∧
          c.get key now =
            (none, ({ c with medium := m, index := c.index.erase key } : Cache M).persist)) ∨
        ∃ error m, Medium.read c.medium key = (.error error, m) ∧
          c.get key now = (none, { c with medium := m }))) := by
  unfold get entry?
  rcases hg : c.index.get? key with _ | e
  · exact Or.inl ⟨rfl, rfl⟩
  refine Or.inr ⟨e, rfl, ?_⟩
  by_cases he : e.Expired now
  · exact Or.inl ⟨he, by simp only [if_pos he]⟩
  refine Or.inr ⟨he, ?_⟩
  simp only [if_neg he]
  rcases Medium.read c.medium key with ⟨error | ⟨_ | payload⟩, m⟩
  · exact Or.inr (Or.inr ⟨error, m, rfl, rfl⟩)
  · exact Or.inr (Or.inl ⟨m, rfl, rfl⟩)
  · exact Or.inl ⟨payload, m, rfl, rfl⟩

theorem Filed.get (h : Filed c.index) (key : String) (now : Instant) :
    Filed (c.get key now).2.index := by
  rcases get_cases c key now with ⟨hg, -⟩ | ⟨e, he, ⟨-, hg⟩ | ⟨-, hrest⟩⟩
  · rw [hg]
    exact h
  · rw [hg, persist_index]
    exact h.sublist (drop_index_sublist c key)
  · rcases hrest with ⟨payload, m, -, hg⟩ | ⟨m, -, hg⟩ | ⟨error, m, -, hg⟩ <;> rw [hg]
    · have hkey : e.key = key := h.key_eq he
      exact h.insert (e := e.touched now) hkey
    · rw [persist_index]
      exact h.sublist List.filter_sublist
    · exact h

theorem Filed.written (h : Filed c.index) (key : String) (now : Instant) (payload : Bytes)
    (lifetime : Option Duration) (kind : String) :
    Filed (c.written key now payload lifetime kind).index :=
  h.insert rfl

theorem Filed.store (h : Filed c.index) (key : String) (payload : Bytes)
    (lifetime : Option Duration) (kind : String) (now : Instant) :
    Filed (c.store key payload lifetime kind now).2.index := by
  rcases store_cases c key now payload lifetime kind with ⟨-, hs⟩ | ⟨error, -, hs⟩ <;> rw [hs]
  · rw [persist_index]
    exact (h.written key now payload lifetime kind).sublist (drops_keepBudget _ now).index_sublist
  · exact h

theorem remove_snd (c : Cache M) (key : String) : (c.remove key).2 = (c.drop key).2.persist := rfl

theorem remove_fst (c : Cache M) (key : String) :
    (c.remove key).1 = ((c.drop key).1 && c.index.contains key) := rfl

theorem clear_index (c : Cache M) : c.clear.index = [] := by
  simp only [clear, persist_index]

theorem clear_settings (c : Cache M) : c.clear.settings = c.settings := by
  simp only [clear, persist_settings]

/-- **Every operation leaves the index filed.** -/
theorem Filed.perform (h : Filed c.index) (op : Operation) : Filed (c.perform op).2.index := by
  cases op with
  | get key now => exact h.get key now
  | store key payload lifetime kind now => exact h.store key payload lifetime kind now
  | remove key =>
    change Filed (c.remove key).2.index
    rw [remove_snd, persist_index]
    exact h.sublist (drop_index_sublist c key)
  | clear =>
    change Filed c.clear.index
    rw [clear_index]
    exact Filed.nil
  | flush =>
    change Filed c.flush.index
    rw [flush_index]
    exact h
  | contains | entry | size | statistics => exact h

theorem Filed.run (h : Filed c.index) (ops : List Operation) : Filed (c.run ops).index := by
  induction ops generalizing c with
  | nil => exact h
  | cons op ops ih => exact ih (h.perform op)

/-- **The index of every reachable cache is filed**, whatever the medium does. -/
theorem Reachable.filed (h : c.Reachable) : Filed c.index := by
  obtain ⟨medium, settings, now, ops, rfl⟩ := h
  exact (filed_openOn medium settings now).run ops

end Cache

end GraphReasoner
