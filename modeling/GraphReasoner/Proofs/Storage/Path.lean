import GraphReasoner.Storage.FileTree
import Mathlib.Data.String.Basic

/-!
# Paths and names as texts

A path is a text, and it is cut at its slashes by a search that counts bytes. What comes out is the
list of its characters cut at the slashes (`GraphReasoner.Folder.splitOn_singleton`), and from there
on no byte is counted any more: a name that is put behind a slash is one component more.

The one thing to watch is the slash itself. A folder may be given with or without one at its end,
the root has nothing before it, and the empty path is the working folder, which must not become the
root when a name is put behind it. Hence two statements and not one:
`GraphReasoner.Folder.locate_append_slash` for a name behind a slash and
`GraphReasoner.Folder.locate_slash` for the slash behind a folder.

An extension is read from the end of a name, so that dots before the last one do not matter
(`GraphReasoner.Folder.extension?_eq_some_iff`).
-/

namespace GraphReasoner.Folder

open String (utf8Len ofList singleton splitOnAux)
open String.Pos (Raw)

/-! ### Cutting a text at a character -/

section Split

variable {c : Char}

/-- What lies between two positions of a text. -/
theorem extract_piece (before piece rest : List Char) :
    Raw.extract (ofList (before ++ piece ++ rest)) ⟨utf8Len before⟩ ⟨utf8Len (before ++ piece)⟩ =
      ofList piece := by
  rw [String.utf8Len_append, String.extract_of_valid]

/-- **One character of the search**: a separator ends the piece read so far, and any other
character becomes a part of it. -/
theorem splitOnAux_cons (d : Char) (before piece rest : List Char) (sofar : List String) :
    splitOnAux (ofList (before ++ piece ++ d :: rest)) (singleton c) ⟨utf8Len before⟩
        ⟨utf8Len (before ++ piece)⟩ 0 sofar =
      if d = c then
        splitOnAux (ofList (before ++ piece ++ d :: rest)) (singleton c)
          ⟨utf8Len (before ++ piece ++ [d])⟩ ⟨utf8Len (before ++ piece ++ [d])⟩ 0
          (ofList piece :: sofar)
      else
        splitOnAux (ofList (before ++ piece ++ d :: rest)) (singleton c) ⟨utf8Len before⟩
          ⟨utf8Len (before ++ piece ++ [d])⟩ 0 sofar := by
  have hend := mt (String.atEnd_of_valid (before ++ piece) (d :: rest)).1 (List.cons_ne_nil d rest)
  have hget : Raw.get (ofList (before ++ piece ++ d :: rest)) ⟨utf8Len (before ++ piece)⟩ = d :=
    String.get_of_valid (before ++ piece) (d :: rest)
  have hnext : Raw.next (ofList (before ++ piece ++ d :: rest)) ⟨utf8Len (before ++ piece)⟩ =
      ⟨utf8Len (before ++ piece ++ [d])⟩ := by
    rw [String.next_of_valid, String.utf8Len_append (before ++ piece), String.utf8Len_cons,
      String.utf8Len_nil, Nat.zero_add]
  have hfirst : Raw.get (singleton c) 0 = c := String.get_of_valid [] [c]
  have hsecond : Raw.next (singleton c) 0 = ⟨0 + c.utf8Size⟩ := String.next_of_valid [] c []
  have hlast : Raw.atEnd (singleton c) ⟨0 + c.utf8Size⟩ = true :=
    (String.atEnd_of_valid [c] []).2 rfl
  rw [splitOnAux, if_neg hend, hget, hfirst]
  rcases eq_or_ne d c with rfl | hd
  · -- the separator was read to its end, and the piece ends before it
    have hback : Raw.unoffsetBy ⟨utf8Len (before ++ piece ++ [d])⟩ ⟨0 + d.utf8Size⟩ =
        ⟨utf8Len (before ++ piece)⟩ := by
      simp [Raw.unoffsetBy, ← Nat.add_assoc]
    rw [if_pos (beq_self_eq_true d), if_pos rfl]
    dsimp only
    rw [hnext, hsecond, if_pos hlast, hback, extract_piece]
  · have hback : Raw.unoffsetBy ⟨utf8Len (before ++ piece)⟩ 0 = ⟨utf8Len (before ++ piece)⟩ := rfl
    rw [if_neg (by simpa using hd), if_neg hd, hback, hnext]

/-- The whole search: a piece that was begun goes on with what is left of the text. -/
theorem splitOnAux_eq (before piece rest : List Char) (sofar : List String) (h : c ∉ piece) :
    splitOnAux (ofList (before ++ piece ++ rest)) (singleton c) ⟨utf8Len before⟩
        ⟨utf8Len (before ++ piece)⟩ 0 sofar =
      sofar.reverse ++ ((piece ++ rest).splitOn c).map ofList := by
  induction rest generalizing before piece sofar with
  | nil =>
    have hend := (String.atEnd_of_valid (before ++ piece) []).2 rfl
    rw [splitOnAux, if_pos hend, extract_piece, List.append_nil piece,
      List.splitOn_eq_singleton h]
    exact List.reverse_cons
  | cons d rest ih =>
    rw [splitOnAux_cons]
    split
    · rename_i hd
      have hrest := ih (before ++ piece ++ [d]) [] (ofList piece :: sofar) List.not_mem_nil
      simp only [List.append_nil, List.append_assoc, List.singleton_append,
        List.nil_append] at hrest ⊢
      rw [hrest, hd, List.splitOn_append_cons_self piece rest, List.splitOn_eq_singleton h,
        List.map_append, List.reverse_cons, List.append_assoc]
      rfl
    · rename_i hd
      have hlonger : c ∉ piece ++ [d] := by simpa using ⟨h, Ne.symm hd⟩
      have hrest := ih before (piece ++ [d]) sofar hlonger
      simpa only [List.append_assoc, List.singleton_append] using hrest

/-- **A text is cut at a character** where the list of its characters is. -/
theorem splitOn_singleton (text : String) (c : Char) :
    text.splitOn (singleton c) = (text.toList.splitOn c).map ofList := by
  have hsplit := splitOnAux_eq [] [] text.toList [] (List.not_mem_nil (a := c))
  have hne : (singleton c == "") = false := by simp
  simpa [String.splitOn, hne] using hsplit

end Split

/-! ### Names behind a folder -/

section Paths

variable {working : List String} {dir name : String}

/-- A path is cut at its slashes. -/
theorem splitOn_slash (text : String) :
    text.splitOn "/" = (text.toList.splitOn '/').map ofList :=
  splitOn_singleton text '/'

/-- A name behind a slash is the last component. -/
theorem splitOn_append_slash (dir : String) (h : '/' ∉ name.toList) :
    (dir ++ "/" ++ name).splitOn "/" = dir.splitOn "/" ++ [name] := by
  have htext : (dir ++ "/" ++ name).toList = dir.toList ++ '/' :: name.toList := by simp
  rw [splitOn_slash, splitOn_slash, htext, List.splitOn_append_cons_self,
    List.splitOn_eq_singleton h, List.map_append, List.map_singleton, String.ofList_toList]

/-- Behind a slash at the end there is an empty component. -/
theorem splitOn_slash_end : (dir ++ "/").splitOn "/" = dir.splitOn "/" ++ [""] := by
  have hempty : '/' ∉ "".toList := by simp
  have hsplit := splitOn_append_slash dir hempty
  rwa [String.append_empty] at hsplit

@[simp] theorem step_empty (path : List String) : step path "" = path :=
  if_pos (Or.inl rfl)

theorem step_of_ne (path : List String) (hempty : name ≠ "") (hdot : name ≠ ".")
    (hdots : name ≠ "..") : step path name = path ++ [name] := by
  rw [step, if_neg (not_or.2 ⟨hempty, hdot⟩), if_neg hdots]

/-- Whether a path begins at the root is seen from its first character. -/
theorem startsWith_append (hdir : dir ≠ "") :
    (dir ++ name).startsWith "/" = dir.startsWith "/" := by
  obtain ⟨first, rest, hfirst⟩ := List.exists_cons_of_ne_nil (mt String.toList_eq_nil_iff.1 hdir)
  rw [Bool.eq_iff_iff, String.startsWith_string_iff, String.startsWith_string_iff,
    String.toList_append, hfirst]
  simp

/-- A path without a slash leads on from the working folder. -/
theorem locate_name (h : '/' ∉ name.toList) : locate working name = step working name := by
  have hstart : name.startsWith "/" = false := by
    rw [← Bool.not_eq_true, String.startsWith_string_iff]
    exact fun hfirst => h (hfirst.subset (List.mem_singleton_self '/'))
  simp only [locate]
  rw [hstart, splitOn_slash, List.splitOn_eq_singleton h, List.map_singleton,
    String.ofList_toList]
  rfl

/-- **A name behind a slash** is one step from where the slash leads. -/
theorem locate_append_slash (h : '/' ∉ name.toList) :
    locate working (dir ++ "/" ++ name) = step (locate working (dir ++ "/")) name := by
  have hslash : dir ++ "/" ≠ "" := by simp
  simp only [locate]
  rw [startsWith_append hslash, splitOn_slash_end, splitOn_append_slash dir h, List.foldl_concat,
    List.foldl_concat, step_empty]

/-- **A slash behind a folder** leads to the folder. Behind nothing it leads to the root. -/
theorem locate_slash (h : dir ≠ "") : locate working (dir ++ "/") = locate working dir := by
  simp only [locate]
  rw [startsWith_append h, splitOn_slash_end, List.foldl_concat, step_empty]

end Paths

/-! ### Extensions -/

section Extension

variable {name stem ext : String}

theorem extension?_append (hstem : stem ≠ "") (hext : '.' ∉ ext.toList)
    (hname : stem ++ "." ++ ext ≠ "..") : extension? (stem ++ "." ++ ext) = some ext := by
  have hreversed : (stem ++ "." ++ ext).toList.reverse =
      ext.toList.reverse ++ '.' :: stem.toList.reverse := by simp
  have hplain : ∀ c ∈ ext.toList.reverse, (c != '.') = true := fun c hc =>
    bne_iff_ne.2 fun heq => hext (heq ▸ List.mem_reverse.1 hc)
  obtain ⟨last, rest, hrest⟩ :=
    List.exists_cons_of_ne_nil (l := stem.toList.reverse) (by simpa using hstem)
  unfold extension?
  simp only [hreversed]
  rw [List.dropWhile_append_of_pos hplain, List.takeWhile_append_of_pos hplain, hrest]
  simp [hname]

theorem eq_append_of_extension? (h : extension? name = some ext) :
    name ≠ ".." ∧ '.' ∉ ext.toList ∧ ∃ stem, stem ≠ "" ∧ name = stem ++ "." ++ ext := by
  unfold extension? at h
  simp only at h
  split at h
  · cases h
  · cases h
  rename_i hnone hone
  split at h
  · cases h
  rename_i hname
  obtain rfl := Option.some.inj h
  obtain ⟨dot, rest, hrest⟩ := List.exists_cons_of_ne_nil hnone
  have hdot : dot = '.' := by
    have hhead := List.head_dropWhile_not (· != '.') hnone
    simpa [hrest] using hhead
  have hsplit := List.takeWhile_append_dropWhile (p := (· != '.')) (l := name.toList.reverse)
  rw [hrest, hdot] at hsplit
  refine ⟨hname, fun hmem => ?_, ofList rest.reverse, fun hempty => ?_, ?_⟩
  · simp only [String.toList_ofList, List.mem_reverse] at hmem
    simpa using List.all_eq_true.1 List.all_takeWhile _ hmem
  · -- a dot at the very beginning does not count
    simp only [String.ofList_eq_empty_iff, List.reverse_eq_nil_iff] at hempty
    exact hone dot (hempty ▸ hrest)
  · apply String.toList_injective
    simpa using (congrArg List.reverse hsplit).symm

/-- **The extension of a name** is what follows its last dot, if something comes before that dot. -/
theorem extension?_eq_some_iff : extension? name = some ext ↔
    name ≠ ".." ∧ '.' ∉ ext.toList ∧ ∃ stem, stem ≠ "" ∧ name = stem ++ "." ++ ext := by
  constructor
  · exact eq_append_of_extension?
  · rintro ⟨hname, hext, stem, hstem, rfl⟩
    exact extension?_append hstem hext hname

end Extension

end GraphReasoner.Folder
