import GraphReasoner.Proofs.Query.Occurrence

/-!
# A phrase occurs as a run of tokens

Whether a question mentions a type of relation is found out by searching text: the tokens are joined
by blanks, with a blank at both ends, and a phrase is looked for with a blank at both ends. What is
meant is that the words of the phrase are tokens that follow one another.

The two agree because a token holds no blank (`GraphReasoner.Query.isWord_of_mem_tokens`). The text
that is searched is then cut at its blanks into the tokens again, and an occurrence of the phrase
falls apart into whole pieces of it. Conversely a run of tokens, joined and padded by itself, is a
part of what all tokens make, wherever in the question the run stands, as the blank after one token
is the blank before the next (`GraphReasoner.Query.spaced_cons`).

Only the empty phrase is found without being there: its two blanks are what no tokens at all make.

* `GraphReasoner.Query.infix_spaced_iff` – the search for a padded phrase;
* `GraphReasoner.Query.relationMentions_exact` – the types that a question mentions.
-/

namespace GraphReasoner.Query

open GraphReasoner.Text

/-! ### Tokens are words -/

/-- The lowercase form of a word has no break in it, with a capital sigma or without. -/
theorem isBreak_of_mem_lowerAfter {text : List Char} (h : ∀ c ∈ text, isBreak c = false)
    (passed : List Char) : ∀ d ∈ lowerAfter passed text, isBreak d = false := by
  induction text generalizing passed with
  | nil => exact nofun
  | cons c rest ih =>
    intro d hd
    rw [lowerAfter] at hd
    rcases List.mem_append.1 hd with hform | hrest
    · split at hform
      · split at hform <;> rw [List.mem_singleton.1 hform] <;> decide
      · exact isBreak_of_mem_lowerChar (h c List.mem_cons_self) hform
    · exact ih (fun e he => h e (List.mem_cons_of_mem _ he)) (c :: passed) d hrest

theorem IsWord.lower {word : List Char} (h : IsWord word) : IsWord (lower word) where
  ne_nil := by
    obtain ⟨c, rest, rfl⟩ := List.exists_cons_of_ne_nil h.ne_nil
    rw [Text.lower, lowerAfter]
    split
    · split <;> simp
    · simp [lowerChar_ne_nil]
  unbroken := isBreak_of_mem_lowerAfter h.unbroken []

theorem Spells.isWord {start : Nat} {text : List Char} {os : List (List Char × Nat)}
    (h : Spells start text os) : ∀ token ∈ os.map Prod.fst, IsWord token := by
  induction h with
  | gap => exact nofun
  | word _ hword _ _ ih => exact List.forall_mem_cons.2 ⟨hword.lower, ih⟩

/-- **A token is a word.** -/
theorem isWord_of_mem_tokens {text token : List Char} (h : token ∈ tokens text) :
    IsWord token := by
  obtain ⟨os, hos⟩ := exists_spells 0 text
  rw [hos.tokens_eq] at h
  exact hos.isWord token h

theorem blank_notMem_of_mem_tokens {text token : List Char} (h : token ∈ tokens text) :
    ' ' ∉ token := by
  intro hblank
  have hbreak := (isWord_of_mem_tokens h).unbroken ' ' hblank
  exact absurd hbreak (by decide)

/-! ### Joined and padded -/

/-- **The blank after one token is the blank before the next.** -/
theorem spaced_cons (t : List Char) {ts : List (List Char)} (h : ts ≠ []) :
    spaced (t :: ts) = ' ' :: (t ++ spaced ts) := by
  rw [spaced, List.intercalate_cons_of_ne_nil h, spaced]
  simp

theorem spaced_suffix_append (before : List (List Char)) {ts : List (List Char)} (h : ts ≠ []) :
    spaced ts <:+ spaced (before ++ ts) := by
  induction before with
  | nil => exact List.suffix_refl _
  | cons t before ih =>
    rw [List.cons_append, spaced_cons t (List.append_ne_nil_of_right_ne_nil before h)]
    exact (ih.trans (List.suffix_append t _)).trans (List.suffix_cons ' ' _)

theorem spaced_prefix_append {ts : List (List Char)} (h : ts ≠ []) (after : List (List Char)) :
    spaced ts <+: spaced (ts ++ after) := by
  induction ts with
  | nil => exact absurd rfl h
  | cons t ts ih =>
    rw [List.cons_append]
    rcases eq_or_ne ts [] with rfl | hts
    · -- the last token of the run ends with a blank, whether another one follows or not
      rcases eq_or_ne after [] with rfl | hafter
      · exact List.prefix_refl _
      · rw [List.nil_append, spaced_cons t hafter]
        simp [spaced]
    · rw [spaced_cons t hts, spaced_cons t (List.append_ne_nil_of_left_ne_nil hts after)]
      simpa using ih hts

/-- **What a run of tokens makes** is a part of what all tokens make. -/
theorem spaced_infix {run ts : List (List Char)} (h : run <:+: ts) (hrun : run ≠ []) :
    spaced run <:+: spaced ts := by
  obtain ⟨before, after, rfl⟩ := h
  have hsuffix := spaced_suffix_append before hrun
  exact hsuffix.isInfix.trans
    (spaced_prefix_append (List.append_ne_nil_of_right_ne_nil before hrun) after).isInfix

/-- What tokens make is cut at its blanks into the tokens, between two empty pieces. -/
theorem splitOn_spaced {ts : List (List Char)} (hts : ∀ t ∈ ts, ' ' ∉ t) (hne : ts ≠ []) :
    (spaced ts).splitOn ' ' = [] :: (ts ++ [[]]) := by
  have hfirst := List.splitOn_append_cons_self (a := ' ') [] (List.intercalate [' '] ts ++ [' '])
  have hlast := List.splitOn_append_cons_self (a := ' ') (List.intercalate [' '] ts) []
  rw [spaced, ← List.nil_append (' ' :: _), hfirst, hlast, List.splitOn_intercalate ' ' hts hne]
  rfl

/-- **A padded phrase is found in padded tokens** exactly when its words follow one another among
the tokens. -/
theorem infix_spaced_iff {ts : List (List Char)} (hts : ∀ t ∈ ts, ' ' ∉ t) {phrase : List Char}
    (hphrase : phrase ≠ []) :
    (' ' :: (phrase ++ [' '])) <:+: spaced ts ↔ phrase.splitOn ' ' <:+: ts := by
  constructor
  · intro hfound
    -- without tokens there are two blanks, and no room for a phrase between them
    have hne : ts ≠ [] := by
      rintro rfl
      have hlength : phrase.length + 2 ≤ 2 := by simpa [spaced] using hfound.length_le
      exact hphrase (List.length_eq_zero_iff.1 (by omega))
    obtain ⟨before, after, heq⟩ := hfound
    -- the blanks around the occurrence are blanks around tokens, and it is cut off there
    have hcut : (spaced ts).splitOn ' ' =
        before.splitOn ' ' ++ (phrase.splitOn ' ' ++ after.splitOn ' ') := by
      rw [← heq, ← List.splitOn_append_cons_self phrase, ← List.splitOn_append_cons_self before]
      simp
    obtain ⟨first, pieces, hbefore⟩ :=
      List.exists_cons_of_ne_nil (List.splitOn_ne_nil ' ' before)
    obtain ⟨pieces', last, hafter⟩ :=
      List.eq_nil_or_concat (after.splitOn ' ') |>.resolve_left (List.splitOn_ne_nil ' ' after)
    rw [splitOn_spaced hts hne, hbefore, hafter, List.cons_append, List.concat_eq_append,
      ← List.append_assoc, ← List.append_assoc] at hcut
    refine ⟨pieces, pieces', ?_⟩
    have hrest := (List.cons.inj hcut).2
    exact ((List.append_inj' hrest rfl).1).symm
  · intro hrun
    have hspaced : ' ' :: (phrase ++ [' ']) = spaced (phrase.splitOn ' ') := by
      rw [spaced, List.intercalate_splitOn]
    rw [hspaced]
    exact spaced_infix hrun (List.splitOn_ne_nil ' ' phrase)

/-! ### Types of relations -/

/-- **A phrase occurs in a question**: an ASCII phrase, cut at its blanks, as a run of tokens, and
any other as a part of the lowercase text. -/
def PhraseOccurs (phrase text : String) : Prop :=
  if isAscii phrase.toList then (phrase.toList.splitOn ' ').map String.ofList <:+: tokenize text
  else phrase.toList <:+: (lowercase text).toList

/-- Lists of texts follow one another like the lists of their characters. -/
theorem map_ofList_infix_iff {run ts : List (List Char)} :
    run.map String.ofList <:+: ts.map String.ofList ↔ run <:+: ts := by
  refine ⟨fun h => ?_, fun h => h.map _⟩
  have hback := h.map String.toList
  simpa [List.map_map, Function.comp_def] using hback

theorem mentionsPhrase_iff {phrase : String} (h : phrase ≠ "") (text : String) :
    mentionsPhrase phrase.toList (lower text.toList) (tokens text.toList) = true ↔
      PhraseOccurs phrase text := by
  have hne : phrase.toList ≠ [] := fun hnil => h (String.toList_eq_nil_iff.1 hnil)
  rw [mentionsPhrase, PhraseOccurs, tokenize, map_ofList_infix_iff, lowercase, String.toList_ofList]
  split
  · rw [occursIn_iff, infix_spaced_iff (fun _ => blank_notMem_of_mem_tokens) hne]
  · exact occursIn_iff

/-- No phrase is empty. -/
theorem phrase_ne_empty : ∀ entry ∈ relationPhrases, ∀ phrase ∈ entry.2, phrase ≠ "" := by
  decide

/-- No type of relation has two entries. -/
theorem nodup_relationPhrases : (relationPhrases.map Prod.fst).Nodup := by
  decide

theorem relationMentions_sublist (text : String) :
    (relationMentions text).Sublist (relationPhrases.map Prod.fst) :=
  List.filter_sublist.map _

theorem mem_relationMentions_iff {text kind : String} : kind ∈ relationMentions text ↔
    ∃ phrases, (kind, phrases) ∈ relationPhrases ∧
      ∃ phrase ∈ phrases, PhraseOccurs phrase text := by
  rw [relationMentions, List.mem_map]
  constructor
  · rintro ⟨⟨kind, phrases⟩, hentry, rfl⟩
    obtain ⟨hentry, hany⟩ := List.mem_filter.1 hentry
    obtain ⟨phrase, hphrase, hmentions⟩ := List.any_eq_true.1 hany
    have hne := phrase_ne_empty _ hentry phrase hphrase
    exact ⟨phrases, hentry, phrase, hphrase, (mentionsPhrase_iff hne text).1 hmentions⟩
  · rintro ⟨phrases, hentry, phrase, hphrase, hoccurs⟩
    have hne := phrase_ne_empty _ hentry phrase hphrase
    exact ⟨(kind, phrases), List.mem_filter.2 ⟨hentry, List.any_eq_true.2
      ⟨phrase, hphrase, (mentionsPhrase_iff hne text).2 hoccurs⟩⟩, rfl⟩

/-- **The types of relations that a question mentions**, in the order of the table and each once,
are those with a phrase that occurs in it. The search for a padded phrase that this rests on finds
every phrase that is not empty exactly where its words are tokens that follow one another. -/
theorem relationMentions_exact (text : String) :
    (relationMentions text).Sublist (relationPhrases.map Prod.fst) ∧
      (relationMentions text).Nodup ∧
      (∀ kind, kind ∈ relationMentions text ↔ ∃ phrases, (kind, phrases) ∈ relationPhrases ∧
        ∃ phrase ∈ phrases, PhraseOccurs phrase text) ∧
      ∀ phrase : List Char, phrase ≠ [] →
        (occursIn (' ' :: (phrase ++ [' '])) (spaced (tokens text.toList)) = true ↔
          phrase.splitOn ' ' <:+: tokens text.toList) := by
  have hsublist := relationMentions_sublist text
  refine ⟨hsublist, nodup_relationPhrases.sublist hsublist, fun _ => mem_relationMentions_iff, ?_⟩
  intro phrase hphrase
  rw [occursIn_iff, infix_spaced_iff (fun _ => blank_notMem_of_mem_tokens) hphrase]

/-- A phrase is found between marks, but not in a word with a hyphen or across parts of tokens. -/
example : relationMentions "Part-of? Is a: his apart of kinds" = ["is_a"] := by
  decide +kernel

end GraphReasoner.Query
