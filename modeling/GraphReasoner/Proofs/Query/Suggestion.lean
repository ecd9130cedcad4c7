import GraphReasoner.Query.Planner
import GraphReasoner.Proofs.Exact
import GraphReasoner.Proofs.Graph.History
import Mathlib.Data.List.Perm.Subperm

/-!
# The best suggestions

Suggestions come from what the planner remembers, from the form of words for the kind of the
question, and from the central neighbors of the entities mentioned. Those that it remembers are
ranked and cut off on their own, then the first suggestion of each text is taken, and what is left
is ranked and cut off again.

To cut off the remembered ones does no harm: as many as are asked for stay, and each is as good as
any that is dropped (`GraphReasoner.Query.Planner.cut_fromHistory`). But to take the first
suggestion of a text does. Remembered ones come first, whatever their confidence, so a question that
was remembered hides the same one from another source, which may be more confident
(`GraphReasoner.Query.Suggestion.Hides`).

* `GraphReasoner.Query.Planner.suggest_serves_iff` – which of all that may be suggested is served by
  the suggestions, and which is not because it is hidden.
-/

namespace GraphReasoner

open GraphReasoner.Query

/-! ### Ranking, and cutting off -/

section Ranking

variable {α : Type} {items : List α} {k : Nat}

/-- What is cut off from a ranking comes after as many items as were asked for. -/
theorem of_not_mem_take {ranks : α → α → Prop} (hranked : items.Pairwise ranks) {a : α}
    (ha : a ∈ items) (hcut : a ∉ items.take k) :
    (items.take k).length = k ∧ ∀ b ∈ items.take k, ranks b a := by
  have hsplit := List.take_append_drop k items
  have hdrop : a ∈ items.drop k := (List.mem_append.1 (hsplit.symm ▸ ha)).resolve_left hcut
  rw [← hsplit, List.pairwise_append] at hranked
  refine ⟨?_, fun b hb => hranked.2.2 b hb a hdrop⟩
  have hpos := List.length_pos_of_mem hdrop
  rw [List.length_drop] at hpos
  rw [List.length_take]
  omega

/-- When as many items as are asked for have a property, and it passes on to all items ranked
higher, then all items that are not cut off have it. -/
theorem forall_mem_take_of_countP {p : α → Bool}
    (hranked : items.Pairwise fun a b => p b = true → p a = true) (hcount : k ≤ items.countP p) :
    ∀ a ∈ items.take k, p a = true := by
  have hsplit := List.take_append_drop k items
  rw [← hsplit, List.pairwise_append] at hranked
  rw [← hsplit, List.countP_append] at hcount
  by_cases hnone : (items.drop k).countP p = 0
  · rw [hnone, Nat.add_zero] at hcount
    have hlength := List.length_take_le k items
    exact List.countP_eq_length.1 (le_antisymm List.countP_le_length (hlength.trans hcount))
  · obtain ⟨b, hb, hp⟩ := List.countP_pos_iff.1 (Nat.pos_of_ne_zero hnone)
    exact fun a ha => hranked.2.2 a ha b hb hp

/-- In a ranking, the first item with a property is ranked before the others with it. -/
theorem of_find?_eq_some {ranks : α → α → Prop} (hself : ∀ a, ranks a a)
    (hranked : items.Pairwise ranks) {p : α → Bool} {first a : α}
    (hfind : items.find? p = some first) (ha : a ∈ items) (hp : p a = true) : ranks first a := by
  obtain ⟨-, before, after, rfl, hbefore⟩ := List.find?_eq_some_iff_append.1 hfind
  rcases List.mem_append.1 ha with hin | hin
  · have hnot := hbefore a hin
    rw [hp] at hnot
    cases hnot
  · obtain ⟨-, hafter, -⟩ := List.pairwise_append.1 hranked
    rcases List.mem_cons.1 hin with rfl | hin
    · exact hself a
    · exact (List.pairwise_cons.1 hafter).1 a hin

variable {S : Type} [Scalar S] [ExactScalar S]

/-- **A ranking by scores**, greatest first, descends. -/
theorem pairwise_mergeSort_descending (score : α → S) (items : List α) :
    (items.mergeSort fun a b => Scalar.descending (score a) (score b) != .gt).Pairwise fun a b =>
      score b ≤ score a := by
  refine (List.pairwise_mergeSort (fun a b c hab hbc => ?_) (fun a b => ?_) items).imp
    ExactScalar.descending_ne_gt_iff.1
  · rw [ExactScalar.descending_ne_gt_iff] at hab hbc ⊢
    exact ExactScalar.le_trans hbc hab
  · rw [Bool.or_eq_true, ExactScalar.descending_ne_gt_iff, ExactScalar.descending_ne_gt_iff,
      ExactScalar.le_iff, ExactScalar.le_iff]
    exact le_total _ _

end Ranking

namespace Query

variable {S : Type} [Scalar S]

/-! ### The first suggestion of each text -/

namespace Planner

omit [Scalar S] in
theorem firstOfEach_concat (suggestions : List (Suggestion S)) (s : Suggestion S) :
    firstOfEach (suggestions ++ [s]) =
      if s.suggested ∈ (firstOfEach suggestions).map Suggestion.suggested then
        firstOfEach suggestions
      else firstOfEach suggestions ++ [s] := by
  rw [firstOfEach, List.foldl_append]
  refine if_congr ?_ rfl rfl
  rw [List.any_eq_true, List.mem_map]
  simp only [beq_iff_eq]
  rfl

omit [Scalar S] in
/-- **The texts** of the first suggestions are all texts, in the order of first appearance. -/
theorem map_suggested_firstOfEach (suggestions : List (Suggestion S)) :
    (firstOfEach suggestions).map Suggestion.suggested =
      (suggestions.map Suggestion.suggested).eraseDups := by
  induction suggestions using List.reverseRecOn with
  | nil => rfl
  | append_singleton suggestions s ih =>
    rw [firstOfEach_concat, List.map_append, List.map_singleton, Graph.eraseDups_concat, ← ih]
    have hmem : s.suggested ∈ (firstOfEach suggestions).map Suggestion.suggested ↔
        s.suggested ∈ suggestions.map Suggestion.suggested := by
      rw [ih, List.mem_eraseDups]
    simp only [← hmem]
    split
    · rfl
    · rw [List.map_append, List.map_singleton]

omit [Scalar S] in
/-- **A suggestion that is first of its text** is what its text finds. -/
theorem find?_of_mem_firstOfEach {suggestions : List (Suggestion S)} {s : Suggestion S}
    (h : s ∈ firstOfEach suggestions) :
    suggestions.find? (fun other => other.suggested == s.suggested) = some s := by
  induction suggestions using List.reverseRecOn with
  | nil => cases h
  | append_singleton suggestions last ih =>
    simp only [firstOfEach_concat, map_suggested_firstOfEach, List.mem_eraseDups] at h
    rw [List.find?_append]
    split at h
    · rw [ih h, Option.some_or]
    · rename_i hnew
      rcases List.mem_append.1 h with h | h
      · rw [ih h, Option.some_or]
      · obtain rfl := List.mem_singleton.1 h
        have hnone : suggestions.find? (fun other => other.suggested == s.suggested) = none := by
          refine List.find?_eq_none.2 fun other hother heq => hnew ?_
          exact List.mem_map.2 ⟨other, hother, beq_iff_eq.1 heq⟩
        rw [hnone, Option.none_or, List.find?_singleton, if_pos (beq_self_eq_true _)]

omit [Scalar S] in
theorem exists_firstOfEach {suggestions : List (Suggestion S)} {s : Suggestion S}
    (h : s ∈ suggestions) : ∃ f ∈ firstOfEach suggestions, f.suggested = s.suggested := by
  rw [← List.mem_map, map_suggested_firstOfEach, List.mem_eraseDups]
  exact List.mem_map_of_mem h

/-! ### Where suggestions come from -/

/-- All suggestions that are drawn from a question and the graph, not from what is remembered. -/
def drawn (g : Graph S) (text : String) : List (Suggestion S) :=
  fromTemplate g text (parse text g) ++ fromStructure g text (parse text g)

theorem candidates_eq (p : Planner S) (g : Graph S) (text : String) (most : Nat) :
    p.candidates g text most = p.fromHistory text most ++ drawn g text :=
  List.append_assoc ..

theorem of_mem_fromTemplate {g : Graph S} {text : String} {q : Question} {s : Suggestion S}
    (h : s ∈ fromTemplate g text q) : s.source = .template ∧ s.confidence = 0.8 := by
  unfold fromTemplate at h
  split at h
  · cases h
  · obtain rfl := List.mem_singleton.1 h
    exact ⟨rfl, rfl⟩

theorem of_mem_fromStructure {g : Graph S} {text : String} {q : Question} {s : Suggestion S}
    (h : s ∈ fromStructure g text q) : s.source = .graphStructure ∧ s.confidence = 0.7 := by
  obtain ⟨e, -, hs⟩ := List.mem_filterMap.1 h
  dsimp only at hs
  split at hs
  · cases hs
  · obtain rfl := Option.some.inj hs
    exact ⟨rfl, rfl⟩

/-- What is drawn from the question is no less confident than what is drawn from the graph. -/
theorem pairwise_drawn [ExactScalar S] (g : Graph S) (text : String) :
    (drawn g text).Pairwise fun s s' => s'.confidence ≤ s.confidence := by
  have hone : (fromTemplate g text (parse text g)).length ≤ 1 := by
    unfold fromTemplate
    split <;> simp
  refine List.pairwise_append.2 ⟨?_, ?_, fun s hs s' hs' => ?_⟩
  · match hs : fromTemplate g text (parse text g) with
    | [] => exact .nil
    | [s] => exact List.pairwise_singleton _ s
    | _ :: _ :: _ => simp [hs] at hone
  · refine List.pairwise_of_forall_mem_list fun s hs s' hs' => ?_
    rw [(of_mem_fromStructure hs).2, (of_mem_fromStructure hs').2]
    exact ExactScalar.le_self _
  · rw [(of_mem_fromTemplate hs).2, (of_mem_fromStructure hs').2, ExactScalar.le_iff,
      ExactScalar.value_ofScientific, ExactScalar.value_ofScientific]
    norm_num

theorem source_of_mem_drawn {g : Graph S} {text : String} {s : Suggestion S}
    (h : s ∈ drawn g text) : s.source ≠ .history := by
  rcases List.mem_append.1 h with h | h
  · rw [(of_mem_fromTemplate h).1]
    decide
  · rw [(of_mem_fromStructure h).1]
    decide

/-! ### What is remembered -/

/-- The questions that are remembered, without the one that suggestions are asked for, each once. -/
def corpus (p : Planner S) (text : String) : List String :=
  ((p.history.map HistoryEntry.text).filter fun past => past != text).eraseDups

/-- The remembered questions that are similar enough, most similar first. -/
def ranked (p : Planner S) (text : String) : List (S × String) :=
  (((similarities text (p.corpus text)).zip (p.corpus text)).filter fun (s, _) =>
    p.settings.similarityThreshold < s).mergeSort fun a b => Scalar.descending a.1 b.1 != .gt

/-- The suggestion of a remembered question. -/
def ofRanked (text : String) (scored : S × String) : Suggestion S where
  asked := text
  suggested := scored.2
  confidence := Scalar.lesser scored.1 1.0
  explanation := "similar to an earlier query"
  source := .history

variable (p : Planner S) (text : String) (most : Nat)

theorem fromHistory_eq :
    p.fromHistory text most = ((p.ranked text).take most).map (ofRanked text) :=
  rfl

omit [Scalar S] in
theorem of_mem_corpus {past : String} (h : past ∈ p.corpus text) :
    past ∈ p.history.map HistoryEntry.text ∧ past ≠ text := by
  rw [corpus, List.mem_eraseDups, List.mem_filter, bne_iff_ne] at h
  exact h

theorem length_similarities (corpus : List String) :
    (similarities text corpus : List S).length = corpus.length := by
  have hlength : (weights (corpus ++ [text]) : List (TermVector S)).length = corpus.length + 1 := by
    rw [weights, weightsOf, List.length_map, List.length_map, List.length_append,
      List.length_singleton]
  unfold similarities
  dsimp only
  split
  · rename_i hnone
    rw [List.getLast?_eq_none_iff] at hnone
    rw [hnone] at hlength
    cases hlength
  · rw [List.length_map, List.length_dropLast, hlength, Nat.add_sub_cancel]

/-- The remembered questions that are similar enough are all different. -/
theorem subperm_map_ranked : ((p.ranked text).map Prod.snd).Subperm (p.corpus text) := by
  have hzip := List.map_snd_zip (length_similarities (S := S) text (p.corpus text)).ge
  have hfilter := (List.filter_sublist (p := fun scored : S × String =>
    decide (p.settings.similarityThreshold < scored.1))
    (l := (similarities text (p.corpus text)).zip (p.corpus text))).map Prod.snd
  rw [hzip] at hfilter
  exact ((List.mergeSort_perm _ _).map Prod.snd).subperm.trans hfilter.subperm

theorem length_ranked_le : (p.ranked text).length ≤ p.history.length := by
  have hcorpus : (p.corpus text).Subperm (p.history.map HistoryEntry.text) :=
    (Graph.nodup_eraseDups _).subperm fun past hpast => (p.of_mem_corpus text hpast).1
  have hlength := ((p.subperm_map_ranked text).trans hcorpus).length_le
  rwa [List.length_map, List.length_map] at hlength

/-- **All that is remembered** is found when as many are asked for as there are, and fewer are found
by cutting off. -/
theorem fromHistory_eq_take :
    p.fromHistory text most = (p.fromHistory text p.history.length).take most := by
  rw [fromHistory_eq, fromHistory_eq, List.take_of_length_le (p.length_ranked_le text),
    List.map_take]

theorem nodup_fromHistory : ((p.fromHistory text most).map Suggestion.suggested).Nodup := by
  have htexts : (p.fromHistory text most).map Suggestion.suggested =
      ((p.ranked text).map Prod.snd).take most := by
    rw [fromHistory_eq, List.map_map, List.map_take]
    rfl
  rw [htexts]
  obtain ⟨texts, hperm, hsublist⟩ := p.subperm_map_ranked text
  refine List.Nodup.sublist (List.take_sublist _ _) (hperm.nodup_iff.1 ?_)
  exact (Graph.nodup_eraseDups _).sublist hsublist

variable {p text most} in
theorem of_mem_fromHistory {s : Suggestion S} (h : s ∈ p.fromHistory text most) :
    s.source = .history ∧ s.suggested ≠ text := by
  rw [fromHistory_eq] at h
  obtain ⟨scored, hscored, rfl⟩ := List.mem_map.1 h
  have hpast : scored.2 ∈ p.corpus text :=
    (p.subperm_map_ranked text).subset (List.mem_map_of_mem (List.mem_of_mem_take hscored))
  exact ⟨rfl, (p.of_mem_corpus text hpast).2⟩

theorem pairwise_fromHistory [ExactScalar S] : (p.fromHistory text most).Pairwise fun s s' =>
    s'.confidence ≤ s.confidence := by
  rw [fromHistory_eq, List.pairwise_map]
  refine ((pairwise_mergeSort_descending Prod.fst _).sublist (List.take_sublist _ _)).imp ?_
  exact ExactScalar.lesser_one_le

/-! ### What is suggested -/

/-- All that may be suggested for a text, however many suggestions are asked for. -/
def proposals (p : Planner S) (g : Graph S) (text : String) : List (Suggestion S) :=
  (p.candidates g text p.history.length).filter fun s => s.suggested != text

/-- The suggestions that are ranked. -/
def distinct (p : Planner S) (g : Graph S) (text : String) (most : Nat) : List (Suggestion S) :=
  firstOfEach ((p.candidates g text most).filter fun s => s.suggested != text)

/-- Suggestions, most confident first. -/
def byConfidence (suggestions : List (Suggestion S)) : List (Suggestion S) :=
  suggestions.mergeSort fun a b => Scalar.descending a.confidence b.confidence != .gt

variable {p text most} {g : Graph S} {s c f : Suggestion S}

theorem mem_candidates_iff : c ∈ p.candidates g text most ↔
    c ∈ p.fromHistory text most ∨ c ∈ drawn g text := by
  rw [candidates_eq, List.mem_append]

/-- **Whatever comes up for a text, and is not the text itself, is among all that may be
suggested.** -/
theorem mem_proposals (hc : c ∈ p.candidates g text most) (htext : c.suggested ≠ text) :
    c ∈ p.proposals g text := by
  rw [proposals, List.mem_filter, bne_iff_ne]
  refine ⟨mem_candidates_iff.2 ((mem_candidates_iff.1 hc).imp_left fun hc => ?_), htext⟩
  rw [fromHistory_eq_take] at hc
  exact List.mem_of_mem_take hc

theorem filter_candidates (p : Planner S) (g : Graph S) (text : String) (most : Nat) :
    (p.candidates g text most).filter (fun s => s.suggested != text) =
      p.fromHistory text most ++ (drawn g text).filter fun s => s.suggested != text := by
  rw [candidates_eq, List.filter_append, List.filter_eq_self.2 fun s hs => ?_]
  exact bne_iff_ne.2 (of_mem_fromHistory hs).2

/-- **No text is ranked twice.** -/
theorem nodup_distinct (p : Planner S) (g : Graph S) (text : String) (most : Nat) :
    ((p.distinct g text most).map Suggestion.suggested).Nodup := by
  rw [distinct, map_suggested_firstOfEach]
  exact Graph.nodup_eraseDups _

theorem eq_of_mem_distinct (hs : s ∈ p.distinct g text most) (hf : f ∈ p.distinct g text most)
    (heq : s.suggested = f.suggested) : s = f :=
  List.inj_on_of_nodup_map (p.nodup_distinct g text most) hs hf heq

/-- What is remembered is ranked. -/
theorem mem_distinct_of_mem_fromHistory (hs : s ∈ p.fromHistory text most) :
    s ∈ p.distinct g text most := by
  have hin : s ∈ (p.candidates g text most).filter fun s => s.suggested != text := by
    rw [filter_candidates]
    exact List.mem_append_left _ hs
  obtain ⟨f, hf, heq⟩ := exists_firstOfEach hin
  have hfind := find?_of_mem_firstOfEach hf
  rw [filter_candidates, List.find?_append, heq,
    Graph.find?_of_mem (p.nodup_fromHistory text most) hs, Option.some_or, Option.some.injEq]
    at hfind
  exact hfind ▸ hf

/-- **What is ranked for a text** is remembered, or else the most confident that is drawn. -/
theorem mem_fromHistory_or_le [ExactScalar S] (hf : f ∈ p.distinct g text most)
    (hc : c ∈ drawn g text) (htext : c.suggested ≠ text) (heq : f.suggested = c.suggested) :
    f ∈ p.fromHistory text most ∨ c.confidence ≤ f.confidence := by
  have hfind := find?_of_mem_firstOfEach hf
  rw [filter_candidates, List.find?_append] at hfind
  rcases hhistory : (p.fromHistory text most).find? fun s => s.suggested == f.suggested with _ | s
  · right
    rw [hhistory, Option.none_or] at hfind
    have hin : c ∈ (drawn g text).filter fun s => s.suggested != text :=
      List.mem_filter.2 ⟨hc, bne_iff_ne.2 htext⟩
    exact of_find?_eq_some (fun s => ExactScalar.le_self s.confidence)
      ((pairwise_drawn g text).filter _) hfind hin (beq_iff_eq.2 heq.symm)
  · left
    rw [hhistory, Option.some_or, Option.some.injEq] at hfind
    exact hfind ▸ List.mem_of_find?_eq_some hhistory

theorem suggest_eq (p : Planner S) (g : Graph S) (text : String) (most : Nat) :
    p.suggest g text most = (byConfidence (p.distinct g text most)).take most :=
  rfl

theorem perm_byConfidence (suggestions : List (Suggestion S)) :
    (byConfidence suggestions).Perm suggestions :=
  List.mergeSort_perm ..

theorem mem_distinct_of_mem_suggest (hs : s ∈ p.suggest g text most) :
    s ∈ p.distinct g text most :=
  (perm_byConfidence _).mem_iff.1 (List.mem_of_mem_take hs)

section Cut

variable [ExactScalar S]

theorem pairwise_byConfidence (suggestions : List (Suggestion S)) :
    (byConfidence suggestions).Pairwise fun s s' => s'.confidence ≤ s.confidence :=
  pairwise_mergeSort_descending Suggestion.confidence suggestions

/-- **What is ranked but not suggested** is cut off: as many as are asked for are suggested, and all
are at least as confident. -/
theorem cut_distinct (hf : f ∈ p.distinct g text most) (hcut : f ∉ p.suggest g text most) :
    (p.suggest g text most).length = most ∧
      ∀ r ∈ p.suggest g text most, f.confidence ≤ r.confidence :=
  of_not_mem_take (pairwise_byConfidence _) ((perm_byConfidence _).mem_iff.2 hf) hcut

/-- **What is remembered but cut off** before the ranking would have been cut off after it: as many
as are asked for are suggested, and all are at least as confident. -/
theorem cut_fromHistory (hc : c ∈ p.fromHistory text p.history.length)
    (hcut : c ∉ p.fromHistory text most) :
    (p.suggest g text most).length = most ∧
      ∀ r ∈ p.suggest g text most, c.confidence ≤ r.confidence := by
  let asGood (s : Suggestion S) : Bool := c.confidence ≤ s.confidence
  -- those that were not cut off are as many as are asked for, and all are ranked
  have hcount : most ≤ (byConfidence (p.distinct g text most)).countP asGood := by
    rw [fromHistory_eq_take] at hcut
    obtain ⟨hlength, hle⟩ := of_not_mem_take (p.pairwise_fromHistory text _) hc hcut
    rw [← fromHistory_eq_take] at hlength hle
    have hall : (p.fromHistory text most).countP asGood = most := by
      rw [List.countP_eq_length.2 fun s hs => decide_eq_true (hle s hs), hlength]
    have hremembered : (p.fromHistory text most).Subperm (p.distinct g text most) :=
      (p.nodup_fromHistory text most).of_map.subperm fun s => mem_distinct_of_mem_fromHistory
    rw [(perm_byConfidence _).countP_eq]
    exact hall.ge.trans (hremembered.countP_le asGood)
  have hup : (byConfidence (p.distinct g text most)).Pairwise fun a b =>
      asGood b = true → asGood a = true :=
    (pairwise_byConfidence _).imp fun hab hb =>
      decide_eq_true (ExactScalar.le_trans (of_decide_eq_true hb) hab)
  rw [suggest_eq]
  refine ⟨?_, fun r hr => of_decide_eq_true (forall_mem_take_of_countP hup hcount r hr)⟩
  rw [List.length_take, min_eq_left (hcount.trans List.countP_le_length)]

end Cut

end Planner

/-! ### What the suggestions serve -/

/-- **Suggestions serve one that may be suggested**, given how many were asked for. If one of them
has its text, that one is at least as confident. If none has, then there are as many as were asked
for, and all of them are at least as confident. -/
structure Suggestion.Served (c : Suggestion S) (suggestions : List (Suggestion S)) (most : Nat) :
    Prop where
  best : ∀ s ∈ suggestions, s.suggested = c.suggested → c.confidence ≤ s.confidence
  cut : (∀ s ∈ suggestions, s.suggested ≠ c.suggested) →
    suggestions.length = most ∧ ∀ s ∈ suggestions, c.confidence ≤ s.confidence

/-- **A remembered question hides the same question from another source** when it is less
confident. -/
structure Suggestion.Hides (h c : Suggestion S) : Prop where
  remembered : h.source = .history
  other : c.source ≠ .history
  same : h.suggested = c.suggested
  less : h.confidence < c.confidence

namespace Planner

variable [ExactScalar S] {p : Planner S} {g : Graph S} {text : String} {most : Nat}
  {c f : Suggestion S}

/-- What is no more confident than what is ranked for its text is served. -/
theorem served_of_le (hf : f ∈ p.distinct g text most) (hsame : f.suggested = c.suggested)
    (hle : c.confidence ≤ f.confidence) : c.Served (p.suggest g text most) most where
  best s hs heq := by
    rwa [eq_of_mem_distinct (mem_distinct_of_mem_suggest hs) hf (heq.trans hsame.symm)]
  cut hnone := by
    obtain ⟨hlength, hcut⟩ := cut_distinct hf fun hin => hnone f hin hsame
    exact ⟨hlength, fun s hs => ExactScalar.le_trans hle (hcut s hs)⟩

/-- What is more confident than what is ranked for its text is served when the latter is cut off, by
suggestions that are confident enough for either. -/
theorem served_iff_of_lt (hf : f ∈ p.distinct g text most) (hsame : f.suggested = c.suggested)
    (hlt : f.confidence < c.confidence) : c.Served (p.suggest g text most) most ↔
      f ∉ p.suggest g text most ∧ ∀ s ∈ p.suggest g text most, c.confidence ≤ s.confidence := by
  have honly : ∀ s ∈ p.suggest g text most, s.suggested = c.suggested → s = f := fun s hs heq =>
    eq_of_mem_distinct (mem_distinct_of_mem_suggest hs) hf (heq.trans hsame.symm)
  constructor
  · intro h
    have hcut : f ∉ p.suggest g text most := fun hin =>
      ExactScalar.not_lt_iff.2 (h.best f hin hsame) hlt
    exact ⟨hcut, (h.cut fun s hs heq => hcut (honly s hs heq ▸ hs)).2⟩
  · rintro ⟨hcut, hle⟩
    exact ⟨fun s hs _ => hle s hs, fun _ => ⟨(cut_distinct hf hcut).1, hle⟩⟩

/-- **What may be suggested is served, unless it is hidden** by a remembered question that is
suggested in its place, or that is cut off while some less confident one is not. -/
theorem served_iff (hc : c ∈ p.proposals g text) : c.Served (p.suggest g text most) most ↔
    ∀ h ∈ p.candidates g text most, h.Hides c → h ∉ p.suggest g text most ∧
      ∀ s ∈ p.suggest g text most, c.confidence ≤ s.confidence := by
  rw [proposals, List.mem_filter, bne_iff_ne, mem_candidates_iff] at hc
  obtain ⟨hc | hc, htext⟩ := hc
  · -- what is remembered is served, and nothing hides it
    refine iff_of_true ?_ fun h _ hhides => absurd (of_mem_fromHistory hc).1 hhides.other
    by_cases hin : c ∈ p.fromHistory text most
    · exact served_of_le (mem_distinct_of_mem_fromHistory hin) rfl (ExactScalar.le_self _)
    · obtain ⟨hlength, hle⟩ := cut_fromHistory (g := g) hc hin
      exact ⟨fun s hs _ => hle s hs, fun _ => ⟨hlength, hle⟩⟩
  · have hin : c ∈ (p.candidates g text most).filter fun s => s.suggested != text :=
      List.mem_filter.2 ⟨mem_candidates_iff.2 (Or.inr hc), bne_iff_ne.2 htext⟩
    obtain ⟨f, hf, hsame⟩ := exists_firstOfEach hin
    have hhides : ∀ h ∈ p.candidates g text most, h.Hides c → h = f := fun h hh hhides => by
      refine eq_of_mem_distinct (mem_distinct_of_mem_fromHistory ?_) hf
        (hhides.same.trans hsame.symm)
      exact (mem_candidates_iff.1 hh).resolve_right fun hdrawn =>
        source_of_mem_drawn hdrawn hhides.remembered
    by_cases hlt : f.confidence < c.confidence
    · have hremembered : f ∈ p.fromHistory text most :=
        (mem_fromHistory_or_le hf hc htext hsame).resolve_right fun hle =>
          ExactScalar.not_lt_iff.2 hle hlt
      rw [served_iff_of_lt hf hsame hlt]
      constructor
      · rintro hserved h hh hhide
        rw [hhides h hh hhide]
        exact hserved
      · exact fun hall => hall f (mem_candidates_iff.2 (Or.inl hremembered))
          ⟨(of_mem_fromHistory hremembered).1, source_of_mem_drawn hc, hsame, hlt⟩
    · refine iff_of_true (served_of_le hf hsame (ExactScalar.not_lt_iff.1 hlt)) ?_
      intro h hh hhide
      exact absurd (hhides h hh hhide ▸ hhide.less) hlt

/-- **Suggestions are the best of all that may be suggested, but for what is hidden**, for every
planner, graph, text and number asked for. They are ranked by confidence, no more than asked for,
and no two have the same text. Each of them may be suggested. And what may be suggested is served by
them exactly when every remembered question that hides it is cut off, together with all that is less
confident than what it hides. -/
theorem suggest_serves_iff (p : Planner S) (g : Graph S) (text : String) (most : Nat) :
    let suggestions := p.suggest g text most
    suggestions.Pairwise (fun s s' => s'.confidence ≤ s.confidence) ∧
      suggestions.length ≤ most ∧ (suggestions.map Suggestion.suggested).Nodup ∧
      (∀ s ∈ suggestions, s ∈ p.proposals g text) ∧
      ∀ c ∈ p.proposals g text, c.Served suggestions most ↔
        ∀ h ∈ p.candidates g text most, h.Hides c → h ∉ suggestions ∧
          ∀ s ∈ suggestions, c.confidence ≤ s.confidence := by
  intro suggestions
  refine ⟨(pairwise_byConfidence _).sublist (List.take_sublist _ _), List.length_take_le .., ?_,
    fun s hs => ?_, fun c => served_iff⟩
  · refine List.Nodup.sublist ((List.take_sublist _ _).map _) ?_
    exact ((perm_byConfidence _).map _).nodup_iff.2 (p.nodup_distinct g text most)
  · have hfind := find?_of_mem_firstOfEach (mem_distinct_of_mem_suggest hs)
    have hin := List.mem_of_find?_eq_some hfind
    rw [List.mem_filter, bne_iff_ne] at hin
    exact mem_proposals hin.1 hin.2

end Planner

end Query

end GraphReasoner
