import GraphReasoner.Proofs.Cache.Directory
import Mathlib.Tactic.FinCases

/-!
# Media are interchangeable

A cache learns nothing of its medium but what the calls return. So two media serve a cache equally
well when they can be kept in step: whenever both are asked the same, they answer the same and stay
in step (`GraphReasoner.Medium.Simulates`). Two caches over such media, with the same index, answer
every operation alike and keep the same index (`GraphReasoner.Cache.Alike.perform`), and so do their
runs.

Every medium is in step with the memory of the program. A database keeps the same table of payloads
beside a saved index that nobody asks for while the cache is open. A folder keeps a file for every
payload, and there the work is in the names: payload files, the index and the passing index never
come into each other's way, and clearing by extension takes away all payloads and nothing else
(`GraphReasoner.Directory.Serves`). Only texts that can be names of files are keys there
(`GraphReasoner.Directory.Accepts`).
-/

namespace GraphReasoner

open GraphReasoner.Time (Instant Duration)

/-! ### Keeping in step -/

/-- **Two outcomes agree**: what is returned is the same, and what is left behind is related. -/
def Agree {M N α : Type} (R : M → N → Prop) (x : α × M) (y : α × N) : Prop :=
  x.1 = y.1 ∧ R x.2 y.2

theorem Agree.exists_eq {M N α : Type} {R : M → N → Prop} {x : α × M} {y : α × N}
    (h : Agree R x y) : ∃ a m n, x = (a, m) ∧ y = (a, n) ∧ R m n :=
  ⟨x.1, x.2, y.2, rfl, Prod.ext h.1.symm rfl, h.2⟩

/-- **Media that are kept in step** by a relation between them, as far as some keys go. -/
structure Medium.Simulates {M N : Type} [Medium M] [Medium N] (accepts : String → Prop)
    (R : M → N → Prop) : Prop where
  read : ∀ {m n key}, R m n → accepts key → Agree R (Medium.read m key) (Medium.read n key)
  write : ∀ {m n key}, R m n → accepts key → ∀ payload,
    Agree R (Medium.write m key payload) (Medium.write n key payload)
  delete : ∀ {m n key}, R m n → accepts key → Agree R (Medium.delete m key) (Medium.delete n key)
  clear : ∀ {m n}, R m n → Agree R (Medium.clear m) (Medium.clear n)
  saveIndex : ∀ {m n}, R m n → ∀ entries,
    Agree R (Medium.saveIndex m entries) (Medium.saveIndex n entries)

namespace Cache

/-- What the operations of a run answer, one after another. -/
def replies {M : Type} [Medium M] (c : Cache M) : List Operation → List Reply
  | [] => []
  | op :: ops => (c.perform op).1 :: (c.perform op).2.replies ops

/-- The key that an operation is about. -/
def Operation.key? : Operation → Option String
  | get key _ | store key _ _ _ _ | remove key | contains key _ | entry key => some key
  | clear | size | statistics _ | flush => none

variable {M N : Type}

/-- **Caches that are alike**: they differ in their media at most, which are in step, and have no
entries but under accepted keys. -/
structure Alike (accepts : String → Prop) (R : M → N → Prop) (c : Cache M) (c' : Cache N) :
    Prop where
  medium : R c.medium c'.medium
  index : c.index = c'.index
  settings : c.settings = c'.settings
  dirty : c.dirty = c'.dirty
  accepted : ∀ item ∈ c.index, accepts item.2.key

section Alike

variable [Medium M] [Medium N] {accepts : String → Prop} {R : M → N → Prop}
  (sim : Medium.Simulates accepts R) {c : Cache M} {c' : Cache N} (h : c.Alike accepts R c')
  {key : String}
include sim h

/-! ### Dropping and saving -/

theorem Alike.persist : c.persist.Alike accepts R c'.persist := by
  obtain ⟨result, m, n, hm, hn, hmedium⟩ :=
    (sim.saveIndex h.medium c.index.values).exists_eq
  unfold Cache.persist
  rw [← h.index, hm, hn]
  rcases result with error | ⟨⟩ <;> exact ⟨hmedium, rfl, h.settings, rfl, h.accepted⟩

theorem Alike.flush : c.flush.Alike accepts R c'.flush := by
  unfold Cache.flush
  rw [← h.dirty]
  split
  · exact h.persist sim
  · exact h

theorem Alike.drop (hkey : accepts key) :
    Agree (Alike accepts R) (c.drop key) (c'.drop key) := by
  obtain ⟨result, m, n, hm, hn, hmedium⟩ := (sim.delete h.medium hkey).exists_eq
  unfold Cache.drop
  rw [hm, hn]
  rcases result with error | ⟨⟩
  · exact ⟨rfl, hmedium, h.index, h.settings, h.dirty, h.accepted⟩
  · exact ⟨rfl, hmedium, congrArg (Table.erase · key) h.index, h.settings, h.dirty,
      fun item hitem => h.accepted item (List.mem_of_mem_filter hitem)⟩

theorem Alike.dropAll {keys : List String} (hkeys : ∀ key ∈ keys, accepts key) :
    (c.dropAll keys).Alike accepts R (c'.dropAll keys) := by
  induction keys generalizing c c' with
  | nil => exact h
  | cons key keys ih =>
    obtain ⟨hkey, hrest⟩ := List.forall_mem_cons.1 hkeys
    exact ih (h.drop sim hkey).2 hrest

omit sim [Medium M] [Medium N] in
theorem Alike.accepted_values {e : Entry} (he : e ∈ c.index.values) : accepts e.key := by
  obtain ⟨item, hitem, rfl⟩ := List.mem_map.1 he
  exact h.accepted item hitem

theorem Alike.purge (now : Instant) : (c.purge now).Alike accepts R (c'.purge now) := by
  unfold Cache.purge expired
  rw [← h.index]
  refine h.dropAll sim fun key hkey => ?_
  obtain ⟨e, he, rfl⟩ := List.mem_map.1 hkey
  exact h.accepted_values (List.mem_of_mem_filter he)

/-! ### Keeping the budget -/

theorem Alike.evict {entries : List Entry} (hentries : ∀ e ∈ entries, accepts e.key)
    (total : Nat) : (c.evict total entries).Alike accepts R (c'.evict total entries) := by
  induction entries generalizing c c' total with
  | nil => exact h
  | cons e entries ih =>
    obtain ⟨he, hrest⟩ := List.forall_mem_cons.1 hentries
    obtain ⟨hsame, hdrop⟩ := h.drop sim he
    rw [evict_cons, evict_cons, ← h.settings, ← hsame]
    split
    · exact h
    · split <;> exact ih hdrop hrest _

theorem Alike.keepBudget (now : Instant) :
    (c.keepBudget now).Alike accepts R (c'.keepBudget now) := by
  have hpurge := h.purge sim now
  unfold Cache.keepBudget totalSize
  rw [← h.index, ← h.settings]
  split
  · exact h
  · simp only [← hpurge.index]
    exact hpurge.evict sim (fun e he => hpurge.accepted_values (List.mem_mergeSort.1 he)) _

/-! ### Operations -/

theorem Alike.get (hkey : accepts key) (now : Instant) :
    Agree (Alike accepts R) (c.get key now) (c'.get key now) := by
  obtain ⟨result, m, n, hm, hn, hmedium⟩ := (sim.read h.medium hkey).exists_eq
  unfold Cache.get entry?
  rw [← h.index, hm, hn]
  rcases he : c.index.get? key with _ | e
  · exact ⟨rfl, h⟩
  by_cases hexpired : e.Expired now
  · simp only [if_pos hexpired]
    exact ⟨rfl, (h.drop sim hkey).2.persist sim⟩
  simp only [if_neg hexpired]
  rcases result with error | ⟨_ | payload⟩
  · exact ⟨rfl, hmedium, rfl, h.settings, h.dirty, h.accepted⟩
  · refine ⟨rfl, Alike.persist sim ⟨hmedium, rfl, h.settings, h.dirty, fun item hitem => ?_⟩⟩
    exact h.accepted item (List.mem_of_mem_filter hitem)
  · refine ⟨rfl, hmedium, rfl, h.settings, rfl, fun item hitem => ?_⟩
    rcases Table.mem_insert hitem with rfl | hitem
    · exact h.accepted (key, e) (Table.mem_of_get? he)
    · exact h.accepted item hitem

theorem Alike.store (hkey : accepts key) (payload : Bytes) (lifetime : Option Duration)
    (kind : String) (now : Instant) :
    Agree (Alike accepts R) (c.store key payload lifetime kind now)
      (c'.store key payload lifetime kind now) := by
  obtain ⟨result, m, n, hm, hn, hmedium⟩ := (sim.write h.medium hkey payload).exists_eq
  unfold Cache.store
  rw [← h.index, ← h.settings, hm, hn]
  rcases result with error | ⟨⟩
  · exact ⟨rfl, hmedium, rfl, rfl, h.dirty, h.accepted⟩
  · have hstored : Alike accepts R
        ⟨m, c.index.insert key (newEntry c.settings key payload lifetime kind now), c.settings,
          c.dirty⟩
        ⟨n, c.index.insert key (newEntry c.settings key payload lifetime kind now), c.settings,
          c'.dirty⟩ := by
      refine ⟨hmedium, rfl, rfl, h.dirty, fun item hitem => ?_⟩
      rcases Table.mem_insert hitem with rfl | hitem
      · exact hkey
      · exact h.accepted item hitem
    have hkept := (hstored.keepBudget sim now).persist sim
    exact ⟨congrArg (Table.contains · key) hkept.index, hkept⟩

theorem Alike.remove (hkey : accepts key) :
    Agree (Alike accepts R) (c.remove key) (c'.remove key) := by
  obtain ⟨hsame, hdrop⟩ := h.drop sim hkey
  refine ⟨?_, hdrop.persist sim⟩
  rw [remove_fst, remove_fst, hsame, h.index]

theorem Alike.clear : c.clear.Alike accepts R c'.clear := by
  obtain ⟨result, m, n, hm, hn, hmedium⟩ := (sim.clear h.medium).exists_eq
  unfold Cache.clear
  rw [hm, hn]
  exact Alike.persist sim ⟨hmedium, rfl, h.settings, h.dirty, nofun⟩

/-- **Alike caches answer every operation alike**, and stay alike. -/
theorem Alike.perform {op : Operation} (hop : ∀ key ∈ op.key?, accepts key) :
    Agree (Alike accepts R) (c.perform op) (c'.perform op) := by
  cases op with
  | get key now =>
    obtain ⟨hsame, hrest⟩ := h.get sim (hop key rfl) now
    exact ⟨congrArg Reply.payload hsame, hrest⟩
  | store key payload lifetime kind now =>
    obtain ⟨hsame, hrest⟩ := h.store sim (hop key rfl) payload lifetime kind now
    exact ⟨congrArg Reply.flag hsame, hrest⟩
  | remove key =>
    obtain ⟨hsame, hrest⟩ := h.remove sim (hop key rfl)
    exact ⟨congrArg Reply.flag hsame, hrest⟩
  | clear => exact ⟨rfl, h.clear sim⟩
  | flush => exact ⟨rfl, h.flush sim⟩
  | contains key now =>
    refine ⟨congrArg Reply.flag ?_, h⟩
    rw [Cache.contains, Cache.contains, entry?, entry?, h.index]
  | entry key => exact ⟨congrArg (fun index => Reply.entry (Table.get? index key)) h.index, h⟩
  | size => exact ⟨congrArg (fun index => Reply.count (List.length index)) h.index, h⟩
  | statistics now =>
    refine ⟨congrArg Reply.statistics ?_, h⟩
    rw [Cache.statistics, Cache.statistics, size, size, totalSize, totalSize, h.index, h.settings]

/-- **Alike caches answer a run alike**, step by step. -/
theorem Alike.run {ops : List Operation} (hops : ∀ op ∈ ops, ∀ key ∈ op.key?, accepts key) :
    c.replies ops = c'.replies ops ∧ (c.run ops).Alike accepts R (c'.run ops) := by
  induction ops generalizing c c' with
  | nil => exact ⟨rfl, h⟩
  | cons op ops ih =>
    obtain ⟨hop, hrest⟩ := List.forall_mem_cons.1 hops
    obtain ⟨hsame, hnext⟩ := h.perform sim hop
    obtain ⟨hreplies, hrun⟩ := ih hnext hrest
    exact ⟨congrArg₂ List.cons hsame hreplies, hrun⟩

end Alike

end Cache

/-! ### The database -/

/-- **A database is in step with memory** when both hold the same payloads. -/
theorem Tables.simulates (accepts : String → Prop) :
    Medium.Simulates accepts fun (t : Tables) (m : Memory) => t.payloads = m.payloads where
  read h _ := ⟨congrArg (fun payloads => Except.ok (Table.get? payloads _)) h, h⟩
  write h _ _ := ⟨rfl, congrArg (fun payloads => Table.insert payloads _ _) h⟩
  delete h _ := ⟨rfl, congrArg (fun payloads => Table.erase payloads _) h⟩
  clear _ := ⟨rfl, rfl⟩
  saveIndex h _ := ⟨rfl, h⟩

/-! ### The folder -/

namespace Folder

variable {f : Folder} {name : String}

theorem Plain.read (h : f.Plain name) :
    f.read name = .error .absent ∧ f.get? name = none ∨
      ∃ bytes, f.read name = .ok bytes ∧ f.get? name = some (.file bytes) := by
  rw [Folder.read, if_pos h.1]
  rcases hget : f.get? name with _ | item
  · exact Or.inl ⟨rfl, rfl⟩
  · obtain ⟨bytes, rfl⟩ := h.2 item hget
    exact Or.inr ⟨bytes, rfl, rfl⟩

theorem Plain.write (h : f.Plain name) (bytes : Bytes) :
    f.write name bytes = .ok (f.insert name (.file bytes)) := by
  rw [Folder.write, if_pos h.1]
  rcases hget : f.get? name with _ | item
  · rfl
  · obtain ⟨bytes, rfl⟩ := h.2 item hget
    rfl

end Folder

namespace Directory

/-- **A key that a folder accepts**: it makes the name of a payload file, and there can be a file of
that name. -/
def Accepts (key : String) : Prop :=
  ∃ name, payloadName key = .ok name ∧ Folder.canName name = true

/-- **A folder that has nothing of a cache**: no payload file and no index. Other things may lie in
it. -/
structure Blank (d : Directory) : Prop where
  payloads : ∀ name, isPayloadName name = true → d.items.get? name = none
  index : d.items.get? indexName = none
  passing : d.items.get? passingName = none

/-- **A folder that serves payloads**: under the name of each accepted key is the file of its
payload, and no folder lies under a name that the cache uses. -/
structure Serves (d : Directory) (payloads : String → Option Bytes) : Prop where
  payload : ∀ key name, payloadName key = .ok name → Folder.canName name = true →
    d.items.get? name = (payloads key).map .file
  plain : ∀ name, isPayloadName name = true → d.items.get? name ≠ none → d.items.Plain name
  index : d.items.Plain indexName
  passing : d.items.Plain passingName

variable {d : Directory} {key name : String} {payloads : String → Option Bytes}

/-! #### Names -/

/-- The files of the index have another extension. -/
theorem ne_of_isPayloadName (h : isPayloadName name = true) :
    name ≠ indexName ∧ name ≠ passingName := by
  constructor <;> rintro rfl
  · exact absurd h (by decide)
  · exact absurd h (by decide)

theorem Blank.serves (h : d.Blank) : d.Serves fun _ => none where
  payload _ name hname _ := h.payloads name (isPayloadName_of_payloadName hname)
  plain name hname hsome := absurd (h.payloads name hname) hsome
  index := ⟨by decide, fun _ hitem => nomatch h.index.symm.trans hitem⟩
  passing := ⟨by decide, fun _ hitem => nomatch h.passing.symm.trans hitem⟩

theorem Blank.loadIndex (h : d.Blank) : d.index = .ok [] :=
  index_of_none h.index

namespace Serves

variable (h : d.Serves payloads)
include h

theorem plain_of_payloadName (hname : payloadName key = .ok name)
    (hcan : Folder.canName name = true) : d.items.Plain name := by
  refine ⟨hcan, fun item hitem => ?_⟩
  rw [h.payload key name hname hcan] at hitem
  obtain ⟨bytes, -, rfl⟩ := Option.map_eq_some_iff.1 hitem
  exact ⟨bytes, rfl⟩

theorem read (hkey : Accepts key) : Medium.read d key = (.ok (payloads key), d) := by
  obtain ⟨name, hname, hcan⟩ := hkey
  change d.withPayload key _ = _
  rw [withPayload, hname]
  simp only [readFile]
  have hpayload := h.payload key name hname hcan
  rcases (h.plain_of_payloadName hname hcan).read with ⟨hread, hget⟩ | ⟨bytes, hread, hget⟩
  · rw [hread, Option.map_eq_none_iff.1 (hpayload.symm.trans hget)]
  · obtain ⟨_, hbytes, heq⟩ := Option.map_eq_some_iff.1 (hpayload.symm.trans hget)
    rw [hread, hbytes]
    cases heq
    rfl

/-- What becomes of the payloads when one file is changed. -/
theorem update (hname : payloadName key = .ok name) (hcan : Folder.canName name = true)
    {value : Option Bytes} {items : Folder}
    (hitems : ∀ other, items.get? other =
      if name = other then value.map .file else d.items.get? other) :
    Serves { d with items } (Function.update payloads key value) := by
  obtain ⟨hindex, hpassing⟩ := payloadName_ne hname
  refine ⟨fun other otherName hother hcan' => ?_, fun otherName hother hsome => ?_,
    h.index.congr (Or.inr ?_), h.passing.congr (Or.inr ?_)⟩
  · rw [hitems]
    by_cases hsame : other = key
    · subst hsame
      rw [if_pos (Except.ok.inj (hname.symm.trans hother)), Function.update_self]
    · rw [if_neg, Function.update_of_ne hsame, h.payload other otherName hother hcan']
      rintro rfl
      exact hsame (payloadName_inj hother hname)
  · by_cases hsame : name = otherName
    · subst hsame
      refine ⟨hcan, fun item hitem => ?_⟩
      rw [hitems, if_pos rfl] at hitem
      obtain ⟨bytes, -, rfl⟩ := Option.map_eq_some_iff.1 hitem
      exact ⟨bytes, rfl⟩
    · have hget : items.get? otherName = d.items.get? otherName := by
        rw [hitems, if_neg hsame]
      exact (h.plain otherName hother (hget ▸ hsome)).congr (Or.inr hget)
  · rw [hitems, if_neg hindex]
  · rw [hitems, if_neg hpassing]

theorem write (hkey : Accepts key) (payload : Bytes) :
    ∃ d', Medium.write d key payload = (.ok (), d') ∧
      d'.Serves (Function.update payloads key (some payload)) := by
  obtain ⟨name, hname, hcan⟩ := hkey
  have hwrite : Medium.write d key payload =
      (.ok (), { d with items := d.items.insert name (.file payload) }) := by
    change d.withPayload key _ = _
    rw [withPayload, hname]
    simp only [(h.plain_of_payloadName hname hcan).write]
    rfl
  refine ⟨_, hwrite, h.update hname hcan fun other => ?_⟩
  rw [Table.get?_insert]
  rfl

theorem delete (hkey : Accepts key) :
    ∃ d', Medium.delete d key = (.ok (), d') ∧
      d'.Serves (Function.update payloads key none) := by
  obtain ⟨name, hname, hcan⟩ := hkey
  obtain ⟨items, hremove⟩ := Folder.exists_remove_iff.2 (h.plain_of_payloadName hname hcan)
  have hdelete : Medium.delete d key = (.ok (), { d with items }) := by
    change d.withPayload key _ = _
    rw [withPayload, hname]
    simp only [hremove]
    rfl
  exact ⟨_, hdelete, h.update hname hcan fun _ => Folder.get?_of_remove hremove⟩

/-- **Saving an index** is done in its own two files. -/
theorem saveIndex (entries : List Entry) :
    ∃ d', Medium.saveIndex d entries = (.ok (), d') ∧ d'.Serves payloads := by
  let text : Bytes := .ofText (indexText entries)
  let written : Folder := d.items.insert passingName (.file text)
  have hread : written.read passingName = .ok text := by
    rw [Folder.read, if_pos h.passing.1, Table.get?_insert, if_pos rfl]
  have hindex : Folder.Plain (written.erase passingName) indexName := by
    refine h.index.congr (Or.inr ?_)
    rw [Table.get?_erase, if_neg (by decide), Table.get?_insert, if_neg (by decide)]
  have hrename : written.rename passingName indexName =
      .ok ((written.erase passingName).insert indexName (.file text)) := by
    rw [Folder.rename, hread]
    exact hindex.write text
  have hsave : Medium.saveIndex d entries =
      (.ok (), { d with items := (written.erase passingName).insert indexName (.file text) }) := by
    change d.writeIndex entries = _
    rw [writeIndex, h.passing.write]
    simp only [change]
    rw [hrename]
  have hothers : ∀ other, other ≠ indexName → other ≠ passingName →
      ((written.erase passingName).insert indexName (.file text)).get? other =
        d.items.get? other := by
    intro other hother hpassing
    rw [Table.get?_insert, if_neg hother.symm, Table.get?_erase, if_neg hpassing.symm,
      Table.get?_insert, if_neg hpassing.symm]
  refine ⟨_, hsave, fun key name hname hcan => ?_, fun name hname hsome => ?_, ?_, ?_⟩
  · obtain ⟨hne, hne'⟩ := payloadName_ne hname
    rw [hothers name hne hne']
    exact h.payload key name hname hcan
  · have hsame := hothers name (ne_of_isPayloadName hname).1 (ne_of_isPayloadName hname).2
    exact (h.plain name hname (hsame ▸ hsome)).congr (Or.inr hsame)
  · refine ⟨h.index.1, fun item hitem => ?_⟩
    rw [Table.get?_insert, if_pos rfl] at hitem
    exact ⟨text, (Option.some.inj hitem).symm⟩
  · refine h.passing.congr (Or.inl ?_)
    rw [Table.get?_insert, if_neg (by decide), Table.get?_erase, if_pos rfl]

end Serves

/-- **Clearing a folder** takes away every payload. -/
theorem Serves.clear (h : d.Serves payloads) :
    ∃ d', Medium.clear d = (.ok (), d') ∧ d'.Serves fun _ => none := by
  have hok : (Medium.clear d).1 = .ok () := by
    refine clear_ok_iff.2 fun name howned hsome => ?_
    rcases owned_iff.1 howned with hname | rfl
    · exact h.plain name hname hsome
    · exact h.index
  have hclear : Medium.clear d = (.ok (), (Medium.clear d).2) := Prod.ext hok rfl
  have hcleared := clearedTo_of_removeAll (.refl _) hclear
  have hgone : ∀ name, Owned name → (Medium.clear d).2.items.get? name = none :=
    fun name howned => (hcleared.get? name).trans (if_pos howned)
  have hpayload : ∀ name, isPayloadName name = true →
      (Medium.clear d).2.items.get? name = none :=
    fun name hname => hgone name (owned_iff.2 (Or.inl hname))
  refine ⟨_, hclear, fun key name hname _ => hpayload name (isPayloadName_of_payloadName hname),
    fun name hname hsome => absurd (hpayload name hname) hsome,
    h.index.congr (Or.inl (hgone indexName (Or.inr rfl))), h.passing.congr (Or.inr ?_)⟩
  exact (hcleared.get? passingName).trans (if_neg (by decide))

/-- **A folder is in step with memory** when it serves the payloads that memory holds. -/
theorem simulates :
    Medium.Simulates Accepts fun (d : Directory) (m : Memory) => d.Serves m.payloads.get? where
  read h hkey := by
    rw [h.read hkey]
    exact ⟨rfl, h⟩
  write {d m key} h hkey payload := by
    obtain ⟨d', hwrite, hserves⟩ := h.write hkey payload
    rw [hwrite]
    refine ⟨rfl, ?_⟩
    rw [← Table.get?_insert_eq_update] at hserves
    exact hserves
  delete {d m key} h hkey := by
    obtain ⟨d', hdelete, hserves⟩ := h.delete hkey
    rw [hdelete]
    refine ⟨rfl, ?_⟩
    rw [← Table.get?_erase_eq_update] at hserves
    exact hserves
  clear h := by
    obtain ⟨d', hclear, hserves⟩ := h.clear
    rw [hclear]
    exact ⟨rfl, hserves⟩
  saveIndex {d m} h entries := by
    obtain ⟨d', hsave, hserves⟩ := h.saveIndex entries
    rw [hsave]
    exact ⟨rfl, hserves⟩

end Directory

/-! ### Three caches -/

namespace Cache

/-- Caches are alike when they are opened over media in step that have no index saved. -/
theorem alike_openOn {M N : Type} [Medium M] [Medium N] {accepts : String → Prop}
    {R : M → N → Prop} (sim : Medium.Simulates accepts R) {m : M} {n : N} (h : R m n)
    (hm : Medium.loadIndex m = (.ok [], m)) (hn : Medium.loadIndex n = (.ok [], n))
    (settings : CacheSettings) (now : Instant) :
    (openOn m settings now).Alike accepts R (openOn n settings now) := by
  unfold openOn
  rw [hm, hn]
  have hempty : Alike accepts R ⟨m, Entry.table [], settings, false⟩
      ⟨n, Entry.table [], settings, false⟩ := ⟨h, rfl, rfl, rfl, nofun⟩
  exact (hempty.purge sim now).persist sim

/-- **The media are interchangeable.** A cache in memory, one in a folder and one in a database,
opened with the same settings where nothing of a cache is, answer every sequence of operations with
the same replies, step by step, as long as the folder accepts the keys. In the end they have the
same entries and find the same payloads. -/
theorem replies_interchangeable {d : Directory} (hblank : d.Blank) (settings : CacheSettings)
    (now : Instant) {ops : List Operation}
    (hops : ∀ op ∈ ops, ∀ key ∈ op.key?, Directory.Accepts key) :
    let inMemory := openOn Memory.empty settings now
    let inFolder := openOn d settings now
    let inDatabase := openOn Tables.empty settings now
    (inFolder.replies ops = inMemory.replies ops ∧
      inDatabase.replies ops = inMemory.replies ops) ∧
    ((inFolder.run ops).index = (inMemory.run ops).index ∧
      (inDatabase.run ops).index = (inMemory.run ops).index) ∧
    ∀ key, Directory.Accepts key →
      (Medium.read (inFolder.run ops).medium key).1 =
        (Medium.read (inMemory.run ops).medium key).1 ∧
      (Medium.read (inDatabase.run ops).medium key).1 =
        (Medium.read (inMemory.run ops).medium key).1 := by
  intro inMemory inFolder inDatabase
  have hfolder : inFolder.Alike Directory.Accepts
      (fun d m => d.Serves (Table.get? m.payloads)) inMemory :=
    alike_openOn Directory.simulates hblank.serves (Prod.ext hblank.loadIndex rfl) rfl settings now
  have hdatabase : inDatabase.Alike Directory.Accepts
      (fun t m => t.payloads = m.payloads) inMemory :=
    alike_openOn (Tables.simulates _) rfl rfl rfl settings now
  obtain ⟨hfolderReplies, hfolderRun⟩ := hfolder.run Directory.simulates hops
  obtain ⟨hdatabaseReplies, hdatabaseRun⟩ := hdatabase.run (Tables.simulates _) hops
  exact ⟨⟨hfolderReplies, hdatabaseReplies⟩, ⟨hfolderRun.index, hdatabaseRun.index⟩,
    fun key hkey => ⟨(Directory.simulates.read hfolderRun.medium hkey).1,
      ((Tables.simulates _).read hdatabaseRun.medium hkey).1⟩⟩

/-- A payload is stored, replaced, asked for and removed, and the rest is cleared. -/
def sampleOperations : List Operation :=
  [.store "a" [1, 2] none "general" ⟨0, 0⟩, .store "a" [3] none "general" ⟨1, 0⟩,
    .get "a" ⟨2, 0⟩, .store "b" [4, 5] none "general" ⟨3, 0⟩, .remove "a", .get "a" ⟨4, 0⟩,
    .size, .clear, .contains "b" ⟨5, 0⟩]

/-- Two caches of nine bytes, one in memory and one in a folder, answer alike. -/
theorem replies_sampleOperations :
    let inMemory := openOn Memory.empty ⟨9, 60⟩ ⟨0, 0⟩
    let inFolder := openOn (⟨"cache", []⟩ : Directory) ⟨9, 60⟩ ⟨0, 0⟩
    inFolder.replies sampleOperations = inMemory.replies sampleOperations ∧
      inMemory.replies sampleOperations =
        [.flag true, .flag true, .payload (some [3]), .flag true, .flag true, .payload none,
          .count 1, .done, .flag false] := by
  intro inMemory inFolder
  have hblank : (⟨"cache", []⟩ : Directory).Blank := ⟨fun _ _ => rfl, rfl, rfl⟩
  have hops : ∀ op ∈ sampleOperations, ∀ key ∈ op.key?, Directory.Accepts key := by
    have haccepts : ∀ key ∈ ["a", "b"], Directory.Accepts key := by
      intro key hkey
      fin_cases hkey <;> exact ⟨_, rfl, rfl⟩
    have hkeys : ∀ op ∈ sampleOperations, ∀ key ∈ op.key?, key ∈ ["a", "b"] := by
      intro op hop
      fin_cases hop <;> simp [Operation.key?]
    exact fun op hop key hkey => haccepts key (hkeys op hop key hkey)
  exact ⟨(replies_interchangeable hblank ⟨9, 60⟩ ⟨0, 0⟩ hops).1.1, by decide +kernel⟩

end Cache

end GraphReasoner
