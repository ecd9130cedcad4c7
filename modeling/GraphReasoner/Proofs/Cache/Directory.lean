import GraphReasoner.Proofs.Cache.Lasting
import GraphReasoner.Proofs.Storage.Path

/-!
# The files of a folder that is a medium

A key becomes the name of a file, and the path of that file has to lead into the folder and nowhere
else. It does (`GraphReasoner.Directory.SafeNames`): a key that is not refused has no slash, and with
`.cache` behind it, it is neither a single dot nor two of them.

The names have a second reader. Whoever clears the folder sees names and no keys, and has to tell
payload files from what else lies there. It goes by the extension, which is what follows the last
dot, unless nothing comes before that dot. So the names it takes for those of payload files are
exactly the nonempty texts with `.cache` behind them (`GraphReasoner.Directory.isPayloadName_iff`),
among them those of the keys that begin with a dot, end with one, or are one. A file that is called
`.cache` and nothing more belongs to no key, and it stays.

One thing the refusal of keys does not look at is whether the file system can have such a file. A
name that is too long or contains a null character passes, and then every call for it is refused, on
a folder that was just cleared as on any other (`GraphReasoner.Directory.not_absent_of_clear`).

* `GraphReasoner.Directory.payloadFiles_exact` – the names are safe, and clearing is complete and
  touches nothing else.
-/

namespace GraphReasoner

/-! ### Removing files -/

namespace Folder

/-- There is nothing but a file under a name, if there is anything, and there can be one. -/
def Plain (f : Folder) (name : String) : Prop :=
  canName name = true ∧ ∀ item, f.get? name = some item → ∃ bytes, item = .file bytes

variable {f f' : Folder} {name : String}

theorem Plain.congr (h : f.Plain name)
    (hget : f'.get? name = none ∨ f'.get? name = f.get? name) : f'.Plain name := by
  refine ⟨h.1, fun item hitem => ?_⟩
  rcases hget with hnone | hsame
  · cases hnone.symm.trans hitem
  · exact h.2 item (hsame.symm.trans hitem)

/-- **A file can be removed**, or was not there. What cannot be removed is a folder, or has a name
that no file can have. -/
theorem exists_remove_iff : (∃ f', f.remove name = .ok f') ↔ f.Plain name := by
  unfold remove Plain
  by_cases hname : canName name = true
  · rw [if_pos hname]
    rcases f.get? name with _ | _ | items <;> simp [hname]
  · simp [hname]

/-- What can be removed can still be removed when something was removed. -/
theorem plain_of_remove {other : String} (h : f.remove name = .ok f') :
    f'.Plain other ↔ f.Plain other := by
  by_cases hother : name = other
  · obtain rfl := hother
    have hplain : f.Plain name := exists_remove_iff.1 ⟨f', h⟩
    have hgone : f'.get? name = none := (get?_of_remove h).trans (if_pos rfl)
    exact ⟨fun _ => hplain, fun _ => hplain.congr (Or.inl hgone)⟩
  · have hsame : f'.get? other = f.get? other := (get?_of_remove h).trans (if_neg hother)
    exact ⟨fun hplain => hplain.congr (Or.inr hsame.symm),
      fun hplain => hplain.congr (Or.inr hsame)⟩

end Folder

namespace Directory

variable {d d' : Directory} {key name path : String} {names : List String}

/-- The first file is removed and then the rest, unless the first cannot be removed. -/
theorem removeAll_cons (d : Directory) (name : String) (names : List String) :
    (∃ items, d.items.remove name = .ok items ∧
        d.removeAll (name :: names) = removeAll { d with items } names) ∨
      ¬d.items.Plain name ∧
        d.removeAll (name :: names) = (.error (.io (d.pathOf name)), d) := by
  rw [removeAll, ← Folder.exists_remove_iff]
  rcases h : d.items.remove name with error | items
  · exact Or.inr ⟨nofun, rfl⟩
  · exact Or.inl ⟨items, rfl, rfl⟩

/-- **Files that were removed are gone**, whatever their order, and all else is as it was. -/
theorem get?_of_removeAll (h : d.removeAll names = (.ok (), d')) :
    d'.path = d.path ∧
      ∀ other, d'.items.get? other = if other ∈ names then none else d.items.get? other := by
  induction names generalizing d with
  | nil =>
    obtain rfl : d = d' := (Prod.mk.inj h).2
    exact ⟨rfl, fun other => by rw [if_neg List.not_mem_nil]⟩
  | cons name names ih =>
    rcases removeAll_cons d name names with ⟨items, hitems, hrest⟩ | ⟨-, hrefused⟩
    · obtain ⟨hpath, hget⟩ := ih (hrest ▸ h)
      refine ⟨hpath, fun other => ?_⟩
      rw [hget, Folder.get?_of_remove hitems]
      by_cases hother : name = other
      · simp [hother]
      · simp [hother, Ne.symm hother]
    · rw [hrefused] at h
      cases h

/-- Files are removed in turn exactly if each of them can be removed. -/
theorem removeAll_ok_iff :
    (d.removeAll names).1 = .ok () ↔ ∀ name ∈ names, d.items.Plain name := by
  induction names generalizing d with
  | nil => simp [removeAll]
  | cons name names ih =>
    rw [List.forall_mem_cons]
    rcases removeAll_cons d name names with ⟨items, hitems, hrest⟩ | ⟨hplain, hrefused⟩
    · rw [hrest, ih]
      simp only [Folder.plain_of_remove hitems]
      exact ⟨fun h => ⟨Folder.exists_remove_iff.1 ⟨items, hitems⟩, h⟩, And.right⟩
    · rw [hrefused]
      exact ⟨nofun, fun h => absurd h.1 hplain⟩

/-! ### Names -/

theorem append_payloadExtension (stem : String) :
    stem ++ "." ++ payloadExtension = stem ++ ".cache" := by
  rw [String.append_assoc]
  rfl

/-- **Clearing recognises payload files**: their names are the nonempty texts with the extension
behind them. -/
theorem isPayloadName_iff :
    isPayloadName name = true ↔ ∃ stem, stem ≠ "" ∧ name = stem ++ ".cache" := by
  simp only [isPayloadName, beq_iff_eq, Folder.extension?_eq_some_iff, append_payloadExtension]
  constructor
  · rintro ⟨-, -, hstem⟩
    exact hstem
  · rintro ⟨stem, hstem, rfl⟩
    refine ⟨fun heq => ?_, by decide, stem, hstem, rfl⟩
    have hlast := congrArg (fun text => text.toList.getLast?) heq
    simp at hlast

/-- A key may be nothing but a dot, while `.cache` alone is the file of no key. -/
example : isPayloadName ("." ++ ".cache") = true ∧ isPayloadName ".cache" = false := by decide

theorem payloadName_of_valid (h : ValidKey key) : payloadName key = .ok (key ++ ".cache") := by
  rw [payloadName, if_pos h, append_payloadExtension]

theorem payloadPath_of_valid (d : Directory) (h : ValidKey key) :
    d.payloadPath key = .ok (d.pathOf (key ++ ".cache")) := by
  rw [payloadPath, payloadName_of_valid h]
  rfl

theorem payloadPath_of_not_valid (d : Directory) (h : ¬ValidKey key) :
    d.payloadPath key = .error (.invalidKey key) := by
  rw [payloadPath, payloadName, if_neg h]
  rfl

theorem valid_of_payloadName (h : payloadName key = .ok name) :
    ValidKey key ∧ name = key ++ ".cache" := by
  by_cases hkey : ValidKey key
  · rw [payloadName_of_valid hkey] at h
    exact ⟨hkey, (Except.ok.inj h).symm⟩
  · rw [payloadName, if_neg hkey] at h
    cases h

theorem isPayloadName_of_payloadName (h : payloadName key = .ok name) :
    isPayloadName name = true := by
  obtain ⟨hkey, rfl⟩ := valid_of_payloadName h
  exact isPayloadName_iff.2 ⟨key, hkey.1, rfl⟩

theorem valid_of_payloadPath (h : d.payloadPath key = .ok path) :
    ValidKey key ∧ path = d.pathOf (key ++ ".cache") := by
  by_cases hkey : ValidKey key
  · rw [payloadPath_of_valid d hkey] at h
    exact ⟨hkey, (Except.ok.inj h).symm⟩
  · rw [payloadPath_of_not_valid d hkey] at h
    cases h

/-! ### Places -/

/-- The path of something in the folder is one step from the folder, whether or not a slash ends the
path of the folder. -/
theorem locate_pathOf (d : Directory) (working : List String) (h : '/' ∉ name.toList) :
    Folder.locate working (d.pathOf name) = Folder.step (Folder.locate working d.path) name := by
  unfold pathOf
  by_cases hempty : d.path = ""
  · have hslash : '/' ∉ "".toList := by simp
    rw [if_pos (Or.inl hempty), hempty, String.empty_append, Folder.locate_name h,
      Folder.locate_name hslash, Folder.step_empty]
  by_cases hend : d.path.endsWith "/" = true
  · rw [if_pos (Or.inr hend)]
    rw [String.endsWith_eq_endsWith_toSlice, String.Slice.endsWith_string_iff] at hend
    obtain ⟨front, hfront⟩ := hend
    have hpath : d.path = String.ofList front ++ "/" := by
      apply String.toList_injective
      simpa using hfront.symm
    rw [hpath, Folder.locate_append_slash h]
  · rw [if_neg (not_or.2 ⟨hempty, hend⟩), Folder.locate_append_slash h,
      Folder.locate_slash hempty]

/-- **A path of something that lies right in the folder**: seen from anywhere, it leads to the
folder and then to a name. -/
def LeadsTo (d : Directory) (path name : String) : Prop :=
  ∀ working, Folder.locate working path = Folder.locate working d.path ++ [name]

theorem leadsTo_pathOf (d : Directory) (h : '/' ∉ name.toList) (hempty : name ≠ "")
    (hdot : name ≠ ".") (hdots : name ≠ "..") : d.LeadsTo (d.pathOf name) name := fun working => by
  rw [locate_pathOf d working h, Folder.step_of_ne _ hempty hdot hdots]

/-- **A key leads into the folder.** -/
theorem leadsTo_payload (d : Directory) (h : ValidKey key) :
    d.LeadsTo (d.pathOf (key ++ ".cache")) (key ++ ".cache") := by
  have hslash : '/' ∉ (key ++ ".cache").toList := by simpa using h.2.1
  -- the last character is no dot, and there is one
  have hne : ∀ other : String, other.toList.getLast? ≠ some 'e' → key ++ ".cache" ≠ other := by
    rintro _ hother rfl
    simp at hother
  exact leadsTo_pathOf d hslash (hne "" (by simp)) (hne "." (by simp)) (hne ".." (by simp))

/-- Paths that lead to different names lead to different places. -/
theorem LeadsTo.locate_ne {path' name' : String} (h : d.LeadsTo path name)
    (h' : d.LeadsTo path' name') (hne : name ≠ name') (working : List String) :
    Folder.locate working path ≠ Folder.locate working path' := by
  rw [h working, h' working]
  intro heq
  exact hne (List.singleton_inj.1 (List.append_cancel_left heq))

/-- **The names are safe.** -/
structure SafeNames (d : Directory) : Prop where
  /-- A key is refused, or its path leads to a file of the folder itself. -/
  place : ∀ key, ¬ValidKey key ∧ d.payloadPath key = .error (.invalidKey key) ∨
    ValidKey key ∧ ∃ path, d.payloadPath key = .ok path ∧ d.LeadsTo path (key ++ ".cache")
  /-- Different keys have different places. -/
  apart : ∀ {key other path otherPath : String}, d.payloadPath key = .ok path →
    d.payloadPath other = .ok otherPath → key ≠ other →
      ∀ working, Folder.locate working path ≠ Folder.locate working otherPath
  /-- No key has the place of the index, nor the one where the index is written first. -/
  index : ∀ {key path : String}, d.payloadPath key = .ok path →
    ∀ working, Folder.locate working path ≠ Folder.locate working (d.pathOf indexName) ∧
      Folder.locate working path ≠ Folder.locate working (d.pathOf passingName)
  /-- Clearing takes the file of a key for a payload file, whatever dots the key has. -/
  recognised : ∀ {key : String}, ValidKey key → isPayloadName (key ++ ".cache") = true

theorem safeNames (d : Directory) : d.SafeNames where
  place key := by
    by_cases hkey : ValidKey key
    · exact Or.inr ⟨hkey, _, payloadPath_of_valid d hkey, leadsTo_payload d hkey⟩
    · exact Or.inl ⟨hkey, payloadPath_of_not_valid d hkey⟩
  apart hpath hotherPath hne := by
    obtain ⟨hkey, rfl⟩ := valid_of_payloadPath hpath
    obtain ⟨hother, rfl⟩ := valid_of_payloadPath hotherPath
    refine (leadsTo_payload d hkey).locate_ne (leadsTo_payload d hother) ?_
    exact mt (String.append_left_inj _).1 hne
  index hpath working := by
    obtain ⟨hkey, rfl⟩ := valid_of_payloadPath hpath
    obtain ⟨hindex, hpassing⟩ := payloadName_ne (payloadName_of_valid hkey)
    have hpayload := leadsTo_payload d hkey
    constructor
    · exact hpayload.locate_ne (leadsTo_pathOf d (by decide) (by decide) (by decide) (by decide))
        hindex working
    · exact hpayload.locate_ne (leadsTo_pathOf d (by decide) (by decide) (by decide) (by decide))
        hpassing working
  recognised hkey := isPayloadName_of_payloadName (payloadName_of_valid hkey)

/-! ### Clearing -/

/-- **The names that are the medium's own**: the nonempty texts with `.cache` behind them, and the
name of the index. -/
def Owned (name : String) : Prop :=
  (∃ stem, stem ≠ "" ∧ name = stem ++ ".cache") ∨ name = indexName

theorem owned_iff : Owned name ↔ isPayloadName name = true ∨ name = indexName :=
  or_congr_left isPayloadName_iff.symm

instance (name : String) : Decidable (Owned name) :=
  decidable_of_iff _ owned_iff.symm

/-- What clearing removes: whatever bears a name of the medium's own, and the index in any case. -/
theorem mem_cleared_iff (hnames : names.Perm (d.items.keys.filter isPayloadName)) :
    name ∈ names ++ [indexName] ↔ Owned name ∧ (name ∈ d.items.keys ∨ name = indexName) := by
  rw [List.mem_append, hnames.mem_iff, List.mem_filter, List.mem_singleton, owned_iff]
  tauto

/-- **A folder that was cleared.** -/
structure ClearedTo (d d' : Directory) : Prop where
  path : d'.path = d.path
  /-- Under the names that are the medium's own there is nothing, and all else is as it was. -/
  get? : ∀ name, d'.items.get? name = if Owned name then none else d.items.get? name
  /-- A key has no payload. -/
  absent : ∀ {key : String}, ValidKey key → Folder.canName (key ++ ".cache") = true →
    (Medium.read d' key).1 = .ok none
  /-- A key whose file cannot have its name is refused, as it was before. -/
  refused : ∀ {key : String}, ValidKey key → Folder.canName (key ++ ".cache") = false →
    (Medium.read d' key).1 = .error (.io (d.pathOf (key ++ ".cache"))) ∧
      (Medium.read d key).1 = .error (.io (d.pathOf (key ++ ".cache")))
  loadIndex : (Medium.loadIndex d').1 = .ok []

theorem read_of_valid (d : Directory) (h : ValidKey key) :
    (Medium.read d key).1 = d.readFile (key ++ ".cache") := by
  change (d.withPayload key fun name => (d.readFile name, d)).1 = _
  rw [withPayload, payloadName_of_valid h]

theorem readFile_of_none (hname : Folder.canName name = true) (h : d.items.get? name = none) :
    d.readFile name = .ok none := by
  rw [readFile, Folder.read, if_pos hname, h]

theorem index_of_none (h : d.items.get? indexName = none) : d.index = .ok [] := by
  rw [index, readFile_of_none (by decide) h]
  rfl

theorem readFile_of_not_canName (d : Directory) (h : Folder.canName name = false) :
    d.readFile name = .error (.io (d.pathOf name)) := by
  rw [readFile, Folder.read, h]
  rfl

/-- **Removing what is the medium's own is complete**, and touches nothing else. The order in which
the payload files are listed does not matter. -/
theorem clearedTo_of_removeAll (hnames : names.Perm (d.items.keys.filter isPayloadName))
    (h : d.removeAll (names ++ [indexName]) = (.ok (), d')) : d.ClearedTo d' := by
  obtain ⟨hpath, hget⟩ := get?_of_removeAll h
  have howned : ∀ name, d'.items.get? name = if Owned name then none else d.items.get? name := by
    intro name
    rw [hget]
    by_cases hname : Owned name
    · rw [if_pos hname]
      by_cases hkeys : name ∈ d.items.keys ∨ name = indexName
      · rw [if_pos ((mem_cleared_iff hnames).2 ⟨hname, hkeys⟩)]
      · -- there was nothing to remove
        rw [if_neg fun hmem => hkeys ((mem_cleared_iff hnames).1 hmem).2]
        rw [not_or, Table.mem_keys_iff, ← Option.isSome_iff_exists, Option.not_isSome_iff_eq_none]
          at hkeys
        exact hkeys.1
    · rw [if_neg hname, if_neg fun hmem => hname ((mem_cleared_iff hnames).1 hmem).1]
  have hpathOf : ∀ name, d'.pathOf name = d.pathOf name := fun name => by
    rw [pathOf, pathOf, hpath]
  exact {
    path := hpath
    get? := howned
    absent hkey hname := by
      have hpayload : Owned (_ ++ ".cache") := Or.inl ⟨_, hkey.1, rfl⟩
      rw [read_of_valid d' hkey, readFile_of_none hname ((howned _).trans (if_pos hpayload))]
    refused hkey hname := by
      rw [read_of_valid d' hkey, read_of_valid d hkey, readFile_of_not_canName d' hname,
        readFile_of_not_canName d hname, hpathOf]
      exact ⟨rfl, rfl⟩
    loadIndex := index_of_none ((howned indexName).trans (if_pos (Or.inr rfl))) }

/-- **A clear succeeds** unless there is something else than a file under a name that is the
medium's own. -/
theorem clear_ok_iff :
    (Medium.clear d).1 = .ok () ↔
      ∀ name, Owned name → d.items.get? name ≠ none → d.items.Plain name := by
  have hkeys : ∀ {name}, name ∈ d.items.keys ↔ d.items.get? name ≠ none := by
    intro name
    rw [Table.mem_keys_iff, Option.ne_none_iff_exists']
  refine removeAll_ok_iff.trans ⟨fun h name howned hname => ?_, fun h name hname => ?_⟩
  · exact h name ((mem_cleared_iff (.refl _)).2 ⟨howned, Or.inl (hkeys.2 hname)⟩)
  · obtain ⟨howned, hname⟩ := (mem_cleared_iff (.refl _)).1 hname
    by_cases hnone : d.items.get? name = none
    · -- an index that is not there is removed all the same
      obtain rfl := hname.resolve_left fun hmem => hkeys.1 hmem hnone
      exact ⟨by decide, fun item hitem => nomatch hnone.symm.trans hitem⟩
    · exact h name howned hnone

/-- **The files of a folder are told apart by their names.** The path of a key that is not refused
leads into the folder, to a place of its own that clearing knows for that of a payload. A clear
succeeds unless something else than a file is in its way. After it no key has a payload and there is
no index, and all that is not the medium's own is as it was. A key whose file cannot have its name
is refused by the file system, after the clear as before it. -/
theorem payloadFiles_exact (d : Directory) :
    d.SafeNames ∧
      ((Medium.clear d).1 = .ok () ↔
        ∀ name, Owned name → d.items.get? name ≠ none → d.items.Plain name) ∧
      ∀ d', Medium.clear d = (.ok (), d') → d.ClearedTo d' :=
  ⟨d.safeNames, clear_ok_iff, fun _ h => clearedTo_of_removeAll (.refl _) h⟩

/-- A folder with payloads whose keys begin with a dot, end with one and are one, and with files
that are no payloads. -/
def dotted : Directory :=
  ⟨"c/", [("..cache", .file [1]), (".a.cache", .file [2]), (".cache", .file [3]),
    ("a..cache", .file [4]), ("cache_metadata.json", .file [5]),
    ("cache_metadata.json.tmp", .file [6]), ("keep.txt", .file [7])]⟩

/-- What is left of it. -/
def dottedCleared : Directory :=
  ⟨"c/", [(".cache", .file [3]), ("cache_metadata.json.tmp", .file [6]), ("keep.txt", .file [7])]⟩

theorem payloadFiles_exact_dots :
    (∀ key ∈ [".", ".a", "a."], ValidKey key) ∧ Medium.clear dotted = (.ok (), dottedCleared) ∧
      dotted.ClearedTo dottedCleared := by
  have hclear : Medium.clear dotted = (.ok (), dottedCleared) := by rfl
  exact ⟨by decide +kernel, hclear, (payloadFiles_exact dotted).2.2 dottedCleared hclear⟩

/-- **Not every key that is accepted is absent after a clear**: the name of its file may be too
long, and then it cannot be looked up. -/
theorem not_absent_of_clear :
    ¬∀ (d d' : Directory) (key path : String), d.payloadPath key = .ok path →
      Medium.clear d = (.ok (), d') → (Medium.read d' key).1 = .ok none := by
  intro h
  have hplain : ∀ c ∈ (String.ofList (List.replicate 250 'x')).toList, c = 'x' := by
    rw [String.toList_ofList]
    exact fun c => List.eq_of_mem_replicate
  have hkey : ValidKey (String.ofList (List.replicate 250 'x')) := by
    refine ⟨fun hempty => ?_, fun hmem => ?_, fun hmem => ?_, fun hdots => ?_⟩
    · exact List.cons_ne_nil _ _ (String.ofList_eq_empty_iff.1 hempty)
    · exact absurd (hplain _ hmem) (by decide)
    · exact absurd (hplain _ hmem) (by decide)
    · exact absurd (hplain '.' (hdots.subset List.mem_cons_self)) (by decide)
  have hbytes : ∀ n, (String.ofList (List.replicate n 'x')).utf8ByteSize = n := by
    intro n
    rw [String.utf8ByteSize_ofList]
    induction n with
    | zero => rfl
    | succ n ih => exact congrArg (· + 1) ih
  have hname : Folder.canName (String.ofList (List.replicate 250 'x') ++ ".cache") = false := by
    rw [Folder.canName, String.utf8ByteSize_append, hbytes]
    rfl
  have habsent := h ⟨"c", []⟩ ⟨"c", []⟩ _ _ (payloadPath_of_valid _ hkey) rfl
  rw [read_of_valid _ hkey, readFile_of_not_canName _ hname] at habsent
  cases habsent

end Directory

end GraphReasoner
