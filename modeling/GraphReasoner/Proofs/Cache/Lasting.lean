import GraphReasoner.Cache.Directory
import GraphReasoner.Proofs.Cache.Faithful
import GraphReasoner.Proofs.Fallible
import GraphReasoner.Proofs.Json.Reread
import GraphReasoner.Proofs.Storage.Bytes

/-!
# Media that outlast a cache

A folder and a database are still there when the cache is gone, and the index that was saved on them
can be loaded again. `GraphReasoner.LastingMedium` says what a cache relies on for this, through two
views of a medium: the payloads it holds and the index saved on it. Which calls fail is left open,
so that `GraphReasoner.Unreliable` around a lasting medium is lasting.

It asks less than `GraphReasoner.FaithfulMedium`, because a folder is cleared file by file: when
that fails halfway, some of the payloads are gone. On the saved index it asks more, and there one
thing cannot be promised: an index comes back only if its entries do, which is a matter of their
instants and sizes (`GraphReasoner.Entry.Decodes`). That a whole index comes back when its entries
do is proved, for the database, which writes every entry on one line, and for the folder, which
writes the index over many.
-/

namespace GraphReasoner

open Json (Legible read compact pretty reread rereadFields)

/-! ### Entries as texts -/

/-- **An entry decodes** when reading its text gives it back. -/
def Entry.Decodes (e : Entry) : Prop :=
  (read (compact (e.toJson : Json Float)) : Option (Json Float)).bind Entry.ofJson? = some e

instance (e : Entry) : Decidable e.Decodes :=
  inferInstanceAs (Decidable (Option.bind _ Entry.ofJson? = some e))

namespace Entry

/-- An entry has no numbers but integers. -/
theorem legible_toJson (e : Entry) : Legible (e.toJson : Json Float) := by
  refine .object ?_
  simp only [List.forall_mem_cons]
  exact ⟨.string _, .string _, .string _, .int _, .string _, .int _, .string _, nofun⟩

/-- How deep an entry lies in a document does not matter. -/
theorem reread_toJson (e : Entry) (depth : Nat) :
    reread (depth + 1) (e.toJson : Json Float) = reread 1 e.toJson := by
  simp only [toJson, reread, rereadFields, Nat.add_one_ne_zero, if_false]

/-- **An entry that decodes is read from every document that has it.** -/
theorem Decodes.ofJson? {e : Entry} (h : e.Decodes) (depth : Nat) :
    Entry.ofJson? (reread (depth + 1) (e.toJson : Json Float)) = some e := by
  have hread : read (compact (e.toJson : Json Float)) = some (reread (126 + 1) e.toJson) :=
    e.legible_toJson.spells_compact.read
  rw [Decodes, hread, Option.bind_some, reread_toJson] at h
  rw [reread_toJson, h]

end Entry

/-! ### Tables of texts -/

namespace Table

variable {V W : Type} (f : V → W)

theorem insert_map (t : Table V) (key : String) (value : V) :
    insert (t.map (Prod.map id f)) key (f value) = (t.insert key value).map (Prod.map id f) := by
  induction t with
  | nil => rfl
  | cons entry rest ih =>
    obtain ⟨k, v⟩ := entry
    rw [List.map_cons, Prod.map_apply, id, insert, insert, ih]
    split
    · rfl
    · split <;> rfl

/-- Changing the values of a table and entering them are the same in either order. -/
theorem ofList_map (entries : List (String × V)) :
    ofList (entries.map (Prod.map id f)) = (ofList entries).map (Prod.map id f) := by
  suffices h : ∀ t : Table V, insertAll (t.map (Prod.map id f)) (entries.map (Prod.map id f)) =
      (t.insertAll entries).map (Prod.map id f) from h []
  induction entries with
  | nil => exact fun t => rfl
  | cons entry entries ih =>
    intro t
    rw [List.map_cons, insertAll, List.foldl_cons, Prod.map_apply, id, insert_map]
    exact ih (t.insert entry.1 entry.2)

end Table

/-- A filed index is the table of its entries. -/
theorem Cache.Filed.table_values {index : Table Entry} (h : Filed index) :
    Entry.table index.values = index := by
  have hown : index.values.map (fun e => (e.key, e)) = index := by
    rw [Table.values, List.map_map, List.map_congr_left (g := id)]
    · exact List.map_id index
    · exact fun item hitem => Prod.ext (h.own item hitem) rfl
  rw [Entry.table, hown]
  exact h.ordered.ofList_eq

/-! ### Lasting media -/

/-- **A medium that outlasts a cache**: the payloads it holds and the index saved on it change only
as its calls say. -/
class LastingMedium (M : Type) extends Medium M where
  /-- The payload that is held under a key. -/
  held : M → String → Option Bytes
  /-- The index that is saved, if it can be read. -/
  saved : M → Option (Table Entry)
  /-- Reading yields what is held. -/
  read_ok : ∀ {m : M} {key : String} {found : Option Bytes},
    (read m key).1 = .ok found → found = held m key
  held_delete_ok : ∀ {m : M} {key : String},
    (delete m key).1 = .ok () → held (delete m key).2 = Function.update (held m) key none
  held_loadIndex : ∀ m : M, held (loadIndex m).2 = held m
  held_saveIndex : ∀ (m : M) (entries : List Entry), held (saveIndex m entries).2 = held m
  /-- Loading yields what is saved. -/
  loadIndex_ok : ∀ {m : M} {entries : List Entry},
    (loadIndex m).1 = .ok entries → saved m = some (Entry.table entries)
  saved_read : ∀ (m : M) (key : String), saved (read m key).2 = saved m
  saved_write_error : ∀ {m : M} {key : String} {payload : Bytes} {error : StorageError},
    (write m key payload).1 = .error error → saved (write m key payload).2 = saved m
  /-- What is saved is saved whole, if its entries decode. -/
  saved_saveIndex_ok : ∀ {m : M} {index : Table Entry}, Cache.Filed index →
    (∀ e ∈ index.values, e.Decodes) → (saveIndex m index.values).1 = .ok () →
      saved (saveIndex m index.values).2 = some index

theorem LastingMedium.showsDeletions {M : Type} [LastingMedium M] :
    Medium.ShowsDeletions (LastingMedium.held (M := M)) where
  delete_ok := LastingMedium.held_delete_ok
  saveIndex := LastingMedium.held_saveIndex

open LastingMedium (held saved)

/-! ### The database -/

namespace Tables

theorem entryOfBytes?_entryText {e : Entry} (h : e.Decodes) :
    entryOfBytes? (.ofText (entryText e)) = some e := by
  rw [entryOfBytes?, Bytes.text?_ofText]
  simp only [Option.bind_eq_bind, Option.bind_some]
  exact h

/-- **The table of a filed index holds its entries.** -/
theorem entries_indexTable {t : Tables} {index : Table Entry} (hf : Cache.Filed index)
    (h : ∀ e ∈ index.values, e.Decodes) :
    entries { t with index := indexTable index.values } = .ok index.values := by
  have htable : indexTable index.values =
      index.map (Prod.map id fun e => Bytes.ofText (entryText e)) := by
    have hlist : index.values.map (fun e => (e.key, Bytes.ofText (entryText e))) =
        (index.values.map fun e => (e.key, e)).map
          (Prod.map id fun e => Bytes.ofText (entryText e)) := by
      rw [List.map_map]
      rfl
    rw [indexTable, hlist, Table.ofList_map]
    exact congrArg (List.map _) hf.table_values
  have hvalues : Table.values (indexTable index.values) =
      index.values.map fun e => Bytes.ofText (entryText e) := by
    rw [htable, Table.values, Table.values, List.map_map, List.map_map]
    rfl
  rw [entries]
  refine (congrArg _ hvalues).trans (mapM_eq_pure fun e he => ?_)
  rw [entryOfBytes?_entryText (h e he)]
  rfl

instance : LastingMedium Tables where
  held t := t.payloads.get?
  saved t := t.entries.toOption.map Entry.table
  read_ok := @FaithfulMedium.read_ok Tables _
  held_delete_ok := @FaithfulMedium.held_delete_ok Tables _
  held_loadIndex := @FaithfulMedium.held_loadIndex Tables _
  held_saveIndex := @FaithfulMedium.held_saveIndex Tables _
  loadIndex_ok {t entries} h := by
    have hload : t.entries = .ok entries := h
    rw [hload]
    rfl
  saved_read _ _ := rfl
  saved_write_error h := nomatch h
  saved_saveIndex_ok {t index} hf h _ := by
    change (entries { t with index := indexTable index.values }).toOption.map Entry.table = _
    rw [entries_indexTable hf h]
    exact congrArg some hf.table_values

end Tables

/-! ### The folder -/

namespace Folder

variable {f f' : Folder} {name newName other : String} {bytes : Bytes}

/-- A file that was written is there, and the others are as they were. -/
theorem read_of_write (h : f.write name bytes = .ok f') :
    f'.read other = if name = other then .ok bytes else f.read other := by
  unfold write at h
  split at h
  · rename_i hname
    have hinsert : f' = f.insert name (.file bytes) := by
      split at h <;> first | exact (Except.ok.inj h).symm | cases h
    rw [hinsert, read, Table.get?_insert]
    by_cases hother : name = other
    · rw [if_pos hother, if_pos hother, ← hother, if_pos hname]
    · rw [if_neg hother, if_neg hother, read]
  · cases h

/-- Where a file was removed there is nothing, and all else is as it was. -/
theorem get?_of_remove (h : f.remove name = .ok f') :
    f'.get? other = if name = other then none else f.get? other := by
  unfold remove at h
  split at h
  · split at h
    · rename_i hnone
      rw [← Except.ok.inj h]
      split
      · rename_i hother
        rw [← hother, hnone]
      · rfl
    · rw [← Except.ok.inj h, Table.get?_erase]
    · cases h
  · cases h

/-- Only a name that a file can have can be removed. -/
theorem canName_of_remove (h : f.remove name = .ok f') : canName name = true := by
  unfold remove at h
  split at h
  · assumption
  · cases h

/-- A file that was removed is not there, and the others are as they were. -/
theorem read_of_remove (h : f.remove name = .ok f') :
    f'.read other = if name = other then .error .absent else f.read other := by
  rw [read, get?_of_remove h]
  by_cases hother : name = other
  · rw [if_pos hother, if_pos hother, ← hother, if_pos (canName_of_remove h)]
  · rw [if_neg hother, if_neg hother, read]

/-- Renaming moves a file and leaves the others as they were. -/
theorem read_of_rename (h : f.rename name newName = .ok f') :
    f'.read newName = f.read name ∧
      ∀ other, other ≠ name → other ≠ newName → f'.read other = f.read other := by
  unfold rename at h
  rcases hread : f.read name with error | bytes <;> rw [hread] at h
  · cases h
  have hwrite : write (f.erase name) newName bytes = .ok f' := h
  constructor
  · rw [read_of_write hwrite, if_pos rfl]
  · intro other hname hnew
    rw [read_of_write hwrite, if_neg hnew.symm, read, read, Table.get?_erase, if_neg hname.symm]

end Folder

namespace Directory

variable {d : Directory} {key other name : String} {entries : List Entry}

/-! #### Names -/

/-- The names of payload files end otherwise than the names of the index. -/
theorem payloadName_ne (h : payloadName key = .ok name) :
    name ≠ indexName ∧ name ≠ passingName := by
  unfold payloadName at h
  split at h
  · rw [← Except.ok.inj h]
    constructor <;> intro heq
    · have hlast := congrArg (fun text => text.toList.getLast?) heq
      simp [payloadExtension, indexName] at hlast
    · have hlast := congrArg (fun text => text.toList.getLast?) heq
      simp [payloadExtension, passingName] at hlast
  · cases h

/-- Keys with the same payload file are the same. -/
theorem payloadName_inj (h : payloadName key = .ok name) (h' : payloadName other = .ok name) :
    key = other := by
  unfold payloadName at h h'
  split at h
  · split at h'
    · have heq := (Except.ok.inj h).trans (Except.ok.inj h').symm
      exact String.append_left_inj _ |>.1 (String.append_left_inj _ |>.1 heq)
    · cases h'
  · cases h

/-! #### Payloads -/

/-- A change of the folder is carried out, or it is refused and changes nothing. -/
theorem change_cases (d : Directory) (name : String) (result : Except Refusal Folder) :
    (∃ items, result = .ok items ∧ d.change name result = (.ok (), { d with items })) ∨
      (d.change name result = (.error (.io (d.pathOf name)), d)) := by
  rcases result with error | items
  · exact Or.inr rfl
  · exact Or.inl ⟨items, rfl, rfl⟩

/-- What the payload file of a key holds. -/
def payload? (d : Directory) (key : String) : Option Bytes :=
  match payloadName key with
  | .ok name => (d.items.read name).toOption
  | .error _ => none

theorem payload?_congr {items : Folder}
    (h : ∀ name, payloadName key = .ok name → items.read name = d.items.read name) :
    payload? { d with items } key = d.payload? key := by
  unfold payload?
  split
  · rename_i name hname
    rw [h name hname]
  · rfl

theorem eq_payload?_of_read {found : Option Bytes}
    (h : (Medium.read d key).1 = .ok found) : found = d.payload? key := by
  change (d.withPayload key fun name => (d.readFile name, d)).1 = .ok found at h
  unfold withPayload at h
  unfold payload?
  rcases hname : payloadName key with error | name <;> rw [hname] at h
  · cases h
  · simp only at h ⊢
    unfold readFile at h
    rcases hread : d.items.read name with (_ | _) | bytes <;> rw [hread] at h <;> cases h <;> rfl

/-- **Changing a payload file changes one payload**: what is read under its name afterwards is the
payload of its key, and the other payloads are as they were. -/
theorem payload?_change {action : String → Except Refusal Folder} (result : Except Refusal Bytes)
    (haction : ∀ {name items}, action name = .ok items → ∀ other,
      items.read other = if name = other then result else d.items.read other)
    (h : (d.withPayload key fun name => d.change name (action name)).1 = .ok ()) :
    (d.withPayload key fun name => d.change name (action name)).2.payload? =
      Function.update d.payload? key result.toOption := by
  unfold withPayload at h ⊢
  rcases hname : payloadName key with error | name <;> rw [hname] at h
  · cases h
  simp only at h ⊢
  rcases change_cases d name (action name) with ⟨items, hitems, hchange⟩ | hchange
  · rw [hchange]
    funext other
    by_cases hother : other = key
    · rw [hother, Function.update_self, payload?, hname]
      simp only [haction hitems, if_true]
    · rw [Function.update_of_ne hother]
      refine payload?_congr fun otherName hotherName => ?_
      rw [haction hitems, if_neg]
      rintro rfl
      exact hother (payloadName_inj hotherName hname)
  · rw [hchange] at h
    cases h

theorem payload?_write {payload : Bytes} (h : (Medium.write d key payload).1 = .ok ()) :
    (Medium.write d key payload).2.payload? = Function.update d.payload? key (some payload) :=
  payload?_change (.ok payload) (fun hitems _ => Folder.read_of_write hitems) h

theorem payload?_delete (h : (Medium.delete d key).1 = .ok ()) :
    (Medium.delete d key).2.payload? = Function.update d.payload? key none :=
  payload?_change (.error .absent) (fun hitems _ => Folder.read_of_remove hitems) h

/-! #### The index -/

/-- **Saving an index writes its text**, and touches no file but its own two. -/
theorem read_writeIndex (d : Directory) (entries : List Entry) :
    ((d.writeIndex entries).1 = .ok () →
      (d.writeIndex entries).2.items.read indexName = .ok (.ofText (indexText entries))) ∧
    ∃ items, (d.writeIndex entries).2 = { d with items } ∧
      ∀ other, other ≠ indexName → other ≠ passingName →
        items.read other = d.items.read other := by
  unfold writeIndex
  rcases change_cases d passingName (d.items.write passingName (.ofText (indexText entries))) with
    ⟨items, hwrite, hchange⟩ | hchange
  · rw [hchange]
    simp only
    rcases change_cases { d with items } indexName (items.rename passingName indexName) with
      ⟨items', hrename, hchange'⟩ | hchange'
    · rw [hchange']
      obtain ⟨hindex, hothers⟩ := Folder.read_of_rename hrename
      refine ⟨fun _ => ?_, items', rfl, fun other hother hpassing => ?_⟩
      · rw [hindex, Folder.read_of_write hwrite, if_pos rfl]
      · rw [hothers other hpassing hother,
          Folder.read_of_write hwrite, if_neg hpassing.symm]
    · rw [hchange']
      refine ⟨nofun, items, rfl, fun other hother hpassing => ?_⟩
      rw [Folder.read_of_write hwrite, if_neg hpassing.symm]
  · rw [hchange]
    exact ⟨nofun, d.items, rfl, fun _ _ _ => rfl⟩

/-- **The text of a filed index denotes its entries.** -/
theorem ofIndexText?_indexText {index : Table Entry} (hf : Cache.Filed index)
    (h : ∀ e ∈ index.values, e.Decodes) :
    ofIndexText? (indexText index.values) = some index.values := by
  have hlegible : Legible
      (.object (index.map fun item => (item.1, item.2.toJson)) : Json Float) := by
    refine .object fun field hfield => ?_
    obtain ⟨item, -, rfl⟩ := List.mem_map.1 hfield
    exact item.2.legible_toJson
  have hread : read (indexText index.values) = some (Json.object
      (index.map fun item => (item.1, reread (125 + 1) (item.2.toJson : Json Float)))) := by
    rw [indexText, hf.table_values]
    refine (hlegible.spells_prettyAt 0).read.trans ?_
    rw [Json.depthLimit, reread, if_neg (by decide), Json.rereadFields_eq_map, List.map_map]
    rfl
  have hdecode : (index.map fun item =>
      (item.1, reread (125 + 1) (item.2.toJson : Json Float))).mapM (m := Option)
        (fun field => do return (field.1, ← Entry.ofJson? field.2)) = some index := by
    refine mapM_eq_pure fun item hitem => ?_
    rw [(h item.2 (List.mem_map_of_mem hitem)).ofJson?]
    rfl
  rw [ofIndexText?, hread]
  simp only [Option.bind_eq_bind, Option.bind_some]
  refine (congrArg (Option.bind · _) hdecode).trans ?_
  exact congrArg (fun t => some (Table.values t)) hf.ordered.ofList_eq

theorem index_of_read (h : d.items.read indexName = .ok (.ofText (indexText entries)))
    {decoded : List Entry} (htext : ofIndexText? (indexText entries) = some decoded) :
    d.index = .ok decoded := by
  have hfile : d.readFile indexName = .ok (some (.ofText (indexText entries))) := by
    rw [readFile, h]
  simp only [index, hfile, Bind.bind, Except.bind, Bytes.text?_ofText, htext]
  rfl

instance : LastingMedium Directory where
  held d := d.payload?
  saved d := d.index.toOption.map Entry.table
  read_ok := eq_payload?_of_read
  held_delete_ok := payload?_delete
  held_loadIndex _ := rfl
  held_saveIndex d entries := by
    obtain ⟨-, items, hitems, hothers⟩ := d.read_writeIndex entries
    change (d.writeIndex entries).2.payload? = d.payload?
    rw [hitems]
    funext key
    exact payload?_congr fun name hname =>
      hothers name (payloadName_ne hname).1 (payloadName_ne hname).2
  loadIndex_ok {d entries} h := by
    have hload : d.index = .ok entries := h
    rw [hload]
    rfl
  saved_read d key := by
    change (d.withPayload key fun name => (d.readFile name, d)).2.index.toOption.map _ = _
    unfold withPayload
    split <;> rfl
  saved_write_error {d key payload error} h := by
    change (d.withPayload key fun name =>
      d.change name (d.items.write name payload)).1 = .error error at h
    change (d.withPayload key fun name =>
      d.change name (d.items.write name payload)).2.index.toOption.map _ = _
    unfold withPayload at h ⊢
    rcases hname : payloadName key with _ | name
    · rfl
    · rw [hname] at h
      simp only at h ⊢
      rcases change_cases d name (d.items.write name payload) with ⟨items, -, hchange⟩ | hchange
      · rw [hchange] at h
        cases h
      · rw [hchange]
  saved_saveIndex_ok {d index} hf h hok := by
    change (d.writeIndex index.values).2.index.toOption.map _ = _
    rw [index_of_read ((d.read_writeIndex index.values).1 hok) (ofIndexText?_indexText hf h)]
    exact congrArg some hf.table_values

/-- A folder shows the contents of its payload files. -/
theorem shows : Medium.Shows payload? where
  toShowsDeletions := LastingMedium.showsDeletions
  read_ok := eq_payload?_of_read
  write_ok := payload?_write

end Directory

/-! ### Calls that are refused -/

namespace Unreliable

variable {M : Type} [LastingMedium M]

/-- A medium whose calls are refused at will is lasting when the medium inside is. -/
instance : LastingMedium (Unreliable M) where
  held u := held u.medium
  saved u := saved u.medium
  read_ok h := LastingMedium.read_ok (call_ok h)
  held_delete_ok h := view_call_ok h LastingMedium.held_delete_ok
  held_loadIndex u := view_call (LastingMedium.held_loadIndex u.medium)
  held_saveIndex u entries := view_call (LastingMedium.held_saveIndex u.medium entries)
  loadIndex_ok h := LastingMedium.loadIndex_ok (call_ok h)
  saved_read u key := view_call (LastingMedium.saved_read u.medium key)
  saved_write_error h := view_call_error h LastingMedium.saved_write_error
  saved_saveIndex_ok hf hdecodes h :=
    view_call_ok h (LastingMedium.saved_saveIndex_ok hf hdecodes)

end Unreliable

end GraphReasoner
