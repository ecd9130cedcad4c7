import GraphReasoner.Proofs.Query.WordVector

/-!
# Similarity is a cosine

The weights of a text are the coordinates of a vector, and the similarity of two texts is the
cosine of the angle between their vectors. For this to be so the vectors have to have length one,
and that they have comes down to counting: no word occurs in more texts than there are
(`GraphReasoner.Query.frequency_le`), so every occurrence weighs one at least
(`GraphReasoner.Query.one_le_rarity`), and a text with a word has a vector that is not zero.

All coordinates are positive at the words of the text and zero elsewhere
(`GraphReasoner.Query.unitVector_eq_zero_iff`). So the angle is at most a right one, and it is a
right one exactly if the texts have no word in common; and as the order of the words does not matter
for their counts, texts with the same words have the same vector.

* `GraphReasoner.Query.similarities_cosine` – what this says of the similarities of a text to the
  texts of a corpus, over numbers with exact square roots and logarithms.
-/

namespace GraphReasoner.Query

open ExactScalar (value)

/-! ### Counting words -/

section Counting

variable {words : List String} {word : String}

theorem get?_countWords (counts : Table Nat) (words : List String) (word : String) :
    (countWords counts words).get? word =
      if word ∈ words then some ((counts.get? word).getD 0 + words.count word)
      else counts.get? word := by
  induction words generalizing counts with
  | nil => rfl
  | cons first words ih =>
    change (countWords (counts.update first 0 (· + 1)) words).get? word = _
    rw [ih, Table.get?_update]
    by_cases hfirst : first = word
    · subst hfirst
      rw [if_pos rfl, Option.getD_some, if_pos List.mem_cons_self, List.count_cons_self]
      split
      · rw [Nat.add_assoc, Nat.add_comm 1]
      · rename_i hnot
        rw [List.count_eq_zero.2 hnot]
    · rw [if_neg hfirst, List.count_cons_of_ne hfirst]
      simp only [List.mem_cons, Ne.symm hfirst, false_or]

theorem ordered_countWords {counts : Table Nat} (h : counts.Ordered) (words : List String) :
    (countWords counts words).Ordered :=
  List.foldlRecOn words _ (motive := Table.Ordered) h fun _ hcounts word _ =>
    hcounts.update word 0 (· + 1)

/-- The order of the words does not matter. -/
theorem countWords_perm {others : List String} (h : words.Perm others) :
    countWords [] words = countWords [] others := by
  have hnil : Table.Ordered ([] : Table Nat) := List.Pairwise.nil
  refine (ordered_countWords hnil words).ext (ordered_countWords hnil others) fun word => ?_
  rw [get?_countWords, get?_countWords, h.count_eq]
  simp only [h.mem_iff]

/-- **The number of texts with a word** is what is counted, each text once. -/
theorem frequency_eq (documents : List (List String)) (word : String) :
    ((documentFrequencies documents).get? word).getD 0 = documents.countP (word ∈ ·) := by
  induction documents using List.reverseRecOn with
  | nil => rfl
  | append_singleton documents document ih =>
    have hmem : word ∈ (TextSet.ofList document).toList ↔ word ∈ document := by
      rw [TextSet.ofList, TextSet.mem_foldl_add]
      exact or_iff_right nofun
    have hnodup : (TextSet.ofList document).toList.Nodup :=
      (TextSet.ordered_ofList document).keys_nodup
    rw [documentFrequencies, List.foldl_concat, get?_countWords, List.countP_append, ← ih,
      List.countP_singleton]
    by_cases hword : word ∈ document
    · rw [if_pos (hmem.2 hword), List.count_eq_one_of_mem hnodup (hmem.2 hword),
        if_pos (decide_eq_true hword)]
      rfl
    · rw [if_neg (mt hmem.1 hword), if_neg (by simpa using hword)]
      rfl

example : documentFrequencies [["b", "a", "b"], ["b"]] = [("a", 1), ("b", 2)] := by decide +kernel

/-- No word occurs in more texts than there are. -/
theorem frequency_le (documents : List (List String)) (word : String) :
    ((documentFrequencies documents).get? word).getD 0 ≤ documents.length := by
  rw [frequency_eq]
  exact List.countP_le_length

end Counting

section Similarity

variable {S : Type} [Scalar S] [AnalyticScalar S]

/-! ### Weights -/

/-- **An occurrence weighs one at least**, if the word does not occur in more texts than there
are. -/
theorem one_le_rarity {total frequency : Nat} (h : frequency ≤ total) :
    1 ≤ value (rarity total frequency : S) := by
  have hratio : (1 : ℝ) ≤ (1 + total) / (1 + frequency) := by
    have hle : (frequency : ℝ) ≤ total := Nat.cast_le.2 h
    rw [one_le_div (by positivity)]
    linarith
  have hlog := Real.log_nonneg hratio
  have hvalue : value (rarity total frequency : S) =
      Real.log ((1 + total) / (1 + frequency)) + 1 := by
    rw [rarity, ExactScalar.value_add, AnalyticScalar.value_log]
    norm_num
  rw [hvalue]
  linarith

/-- What an occurrence of a word weighs among some texts. -/
def wordWeight (documents : List (List String)) (word : String) : S :=
  rarity documents.length (((documentFrequencies documents).get? word).getD 0)

/-- The weights of a text among some texts, before they are scaled. -/
def weigh (documents : List (List String)) (document : List String) : TermVector S :=
  rawWeights documents.length (documentFrequencies documents) document

variable {documents : List (List String)} {document other : List String} {word : String}

theorem one_le_wordWeight (documents : List (List String)) (word : String) :
    1 ≤ value (wordWeight documents word : S) :=
  one_le_rarity (frequency_le documents word)

omit [AnalyticScalar S] in
theorem ordered_weigh : (weigh documents document : TermVector S).Ordered :=
  (ordered_countWords List.Pairwise.nil document).map
    (f := fun word (count : Nat) => (count : S) * wordWeight documents word)

/-- What the coordinate at a word counts and weighs. -/
theorem coordinate_weigh : coordinate (weigh documents document : TermVector S) word =
    document.count word * value (wordWeight documents word : S) := by
  have hget : (weigh documents document : TermVector S).get? word =
      ((countWords [] document).get? word).map fun (count : Nat) =>
        (count : S) * wordWeight documents word :=
    Table.get?_map (f := fun word (count : Nat) => (count : S) * wordWeight documents word)
  rw [coordinate, hget, get?_countWords]
  by_cases hword : word ∈ document
  · rw [if_pos hword, Option.map_some, Option.map_some, Option.getD_some, ExactScalar.value_mul,
      ExactScalar.value_natCast]
    exact congrArg (fun n : Nat => (n : ℝ) * _) (Nat.zero_add _)
  · rw [if_neg hword, List.count_eq_zero.2 hword, Nat.cast_zero, zero_mul]
    rfl

theorem coordinate_weigh_nonneg :
    0 ≤ coordinate (weigh documents document : TermVector S) word := by
  have hweight := one_le_wordWeight (S := S) documents word
  rw [coordinate_weigh]
  exact mul_nonneg (Nat.cast_nonneg _) (zero_le_one.trans hweight)

theorem coordinate_weigh_pos (h : word ∈ document) :
    0 < coordinate (weigh documents document : TermVector S) word := by
  have hweight := one_le_wordWeight (S := S) documents word
  have hcount : 0 < document.count word := List.count_pos_iff.2 h
  rw [coordinate_weigh]
  exact mul_pos (Nat.cast_pos.2 hcount) (zero_lt_one.trans_le hweight)

/-- **A text with a word has a vector that is not zero.** -/
theorem dot_weigh_pos (h : document ≠ []) :
    0 < dot (weigh documents document : TermVector S) (weigh documents document) := by
  obtain ⟨word, hword⟩ := List.exists_mem_of_ne_nil document h
  have hpos : 0 < coordinate (weigh documents document : TermVector S) word :=
    coordinate_weigh_pos hword
  exact (mul_pos hpos hpos).trans_le (coordinate_mul_self_le word)

/-! ### Vectors of length one -/

/-- The vector of a text among some texts. -/
def unitVector (documents : List (List String)) (document : List String) : TermVector S :=
  normalize (weigh documents document)

omit [AnalyticScalar S] in
theorem ordered_unitVector : (unitVector documents document : TermVector S).Ordered :=
  ordered_normalize ordered_weigh

theorem unitVector_nonneg (documents : List (List String)) (document : List String)
    (word : String) : 0 ≤ coordinate (unitVector documents document : TermVector S) word := by
  rw [unitVector, coordinate_normalize ordered_weigh]
  exact div_nonneg coordinate_weigh_nonneg (Real.sqrt_nonneg _)

/-- **The vector of a text has a coordinate at its words and no others.** -/
theorem unitVector_eq_zero_iff :
    coordinate (unitVector documents document : TermVector S) word = 0 ↔ word ∉ document := by
  rw [unitVector, coordinate_normalize ordered_weigh]
  constructor
  · intro h hword
    have hne : document ≠ [] := List.ne_nil_of_mem hword
    exact (div_pos (coordinate_weigh_pos hword) (Real.sqrt_pos.2 (dot_weigh_pos hne))).ne' h
  · intro h
    rw [coordinate_weigh, List.count_eq_zero.2 h, Nat.cast_zero, zero_mul, zero_div]

theorem dot_unitVector_self (h : document ≠ []) :
    dot (unitVector documents document : TermVector S) (unitVector documents document) = 1 :=
  dot_normalize_self ordered_weigh (dot_weigh_pos h)

omit [AnalyticScalar S] in
/-- The vector of a text without words is zero. -/
theorem unitVector_nil : (unitVector documents [] : TermVector S) = [] := by
  rw [unitVector, normalize]
  exact ite_self _

theorem norm_unitVector (h : document ≠ []) :
    value (norm (unitVector documents document : TermVector S)) = 1 := by
  rw [value_norm ordered_unitVector, dot_unitVector_self h, Real.sqrt_one]

theorem unitVector_eq_nil_iff :
    (unitVector documents document : TermVector S) = [] ↔ document = [] := by
  refine ⟨fun hnil => by_contra fun h => ?_, fun h => h ▸ unitVector_nil⟩
  -- a vector without entries has length zero
  have hone : dot (unitVector documents document : TermVector S)
      (unitVector documents document) = 1 := dot_unitVector_self h
  rw [hnil] at hone
  exact zero_ne_one hone

/-- No vector is longer than one. -/
theorem dot_unitVector_self_le :
    dot (unitVector documents document : TermVector S) (unitVector documents document) ≤ 1 := by
  by_cases h : document = []
  · rw [h, unitVector_nil]
    exact zero_le_one
  · exact (dot_unitVector_self h).le

/-- **The inner product of two such vectors is a share.** -/
theorem dot_unitVector_le_one :
    dot (unitVector documents document : TermVector S) (unitVector documents other) ≤ 1 := by
  refine dot_le.trans (mul_le_one₀ ?_ (Real.sqrt_nonneg _) ?_)
  · exact Real.sqrt_le_one.2 dot_unitVector_self_le
  · exact Real.sqrt_le_one.2 dot_unitVector_self_le

/-- **Texts are at a right angle when they have no word in common.** -/
theorem dot_unitVector_eq_zero_iff :
    dot (unitVector documents document : TermVector S) (unitVector documents other) = 0 ↔
      document.Disjoint other := by
  rw [dot_eq_zero_iff (unitVector_nonneg documents document) (unitVector_nonneg documents other)]
  simp only [unitVector_eq_zero_iff, List.Disjoint, ← imp_iff_not_or]

omit [AnalyticScalar S] in
/-- The same words make the same vector. -/
theorem unitVector_perm (h : document.Perm other) :
    (unitVector documents document : TermVector S) = unitVector documents other := by
  rw [unitVector, unitVector, weigh, weigh, rawWeights, rawWeights, countWords_perm h]

/-! ### Similarities -/

omit [AnalyticScalar S] in
/-- The vectors of some texts are those among all of them. -/
theorem weights_eq (texts : List String) : (weights texts : List (TermVector S)) =
    texts.map fun text => unitVector (texts.map terms) (terms text) := by
  rw [weights, weightsOf, List.map_map]
  rfl

omit [AnalyticScalar S] in
/-- **Each text of the corpus is compared** with the text that was asked for, among all of them. -/
theorem similarities_eq (text : String) (corpus : List String) :
    (similarities text corpus : List S) = corpus.map fun document =>
      cosine (unitVector ((corpus ++ [text]).map terms) (terms text))
        (unitVector ((corpus ++ [text]).map terms) (terms document)) := by
  have hlast : (weights (corpus ++ [text]) : List (TermVector S)).getLast? =
      some (unitVector ((corpus ++ [text]).map terms) (terms text)) := by
    rw [weights_eq, List.getLast?_map, List.getLast?_concat]
    rfl
  rw [similarities]
  simp only [hlast]
  rw [weights_eq, ← List.map_dropLast, List.dropLast_concat, List.map_map]
  rfl

/-- **What a similarity says of two texts**: it is in the unit interval, zero exactly if they have
no word in common that counts, and one if they have the same words that count and have some. -/
structure Compares (text document : String) (similarity : S) : Prop where
  inUnit : Scalar.InUnit similarity
  eq_zero_iff : value similarity = 0 ↔ (terms text).Disjoint (terms document)
  eq_one : (terms text).Perm (terms document) → terms text ≠ [] → value similarity = 1

theorem compares_cosine (texts : List String) (text document : String) :
    Compares text document (cosine (unitVector (texts.map terms) (terms text))
      (unitVector (texts.map terms) (terms document)) : S) := by
  have hvalue : value (cosine (unitVector (texts.map terms) (terms text))
      (unitVector (texts.map terms) (terms document)) : S) = _ :=
    value_cosine ordered_unitVector ordered_unitVector
  refine ⟨?_, ?_, fun hperm hne => ?_⟩
  · rw [ExactScalar.inUnit_iff, hvalue]
    exact ⟨dot_nonneg (unitVector_nonneg _ _) (unitVector_nonneg _ _), dot_unitVector_le_one⟩
  · rw [hvalue, dot_unitVector_eq_zero_iff]
  · rw [hvalue, ← unitVector_perm hperm, dot_unitVector_self hne]

/-- **Similarity is a cosine.** Over numbers with exact square roots and logarithms, a text has one
similarity to each text of a corpus, in their order: it is in the unit interval, zero exactly if the
two have no word in common that counts, and one if they have the same words that count and have
some. The vectors behind it have length one, unless a text has no word that counts and its vector
has no entry. They are scaled to it by a length that is not zero, because every occurrence of a word
weighs one at least. The cosine of two vectors is the same in both orders, whichever vector is gone
through. -/
theorem similarities_cosine :
    (∀ (text : String) (corpus : List String),
      List.Forall₂ (Compares text) corpus (similarities text corpus : List S)) ∧
    (∀ texts : List String,
      List.Forall₂ (fun text (v : TermVector S) =>
        (v = [] ↔ terms text = []) ∧ (v ≠ [] → value (norm v) = 1)) texts (weights texts)) ∧
    (∀ (documents : List (List String)) (document : List String), document ≠ [] →
      (0.0 : S) < norm (weigh documents document)) ∧
    (∀ (documents : List (List String)) (word : String),
      1 ≤ value (wordWeight documents word : S)) ∧
    ∀ a b : TermVector S, a.Ordered → b.Ordered →
      value (innerProduct a b) = value (innerProduct b a) ∧
        value (cosine a b) = value (cosine b a) := by
  refine ⟨fun text corpus => ?_, fun texts => ?_, fun documents document hne => ?_,
    one_le_wordWeight, fun a b ha hb => ⟨?_, ?_⟩⟩
  · rw [similarities_eq, List.forall₂_map_right_iff, List.forall₂_same]
    exact fun document _ => compares_cosine (corpus ++ [text]) text document
  · rw [weights_eq, List.forall₂_map_right_iff, List.forall₂_same]
    exact fun text _ => ⟨unitVector_eq_nil_iff,
      fun hne => norm_unitVector (mt unitVector_eq_nil_iff.2 hne)⟩
  · exact (norm_pos_iff ordered_weigh).2 (dot_weigh_pos hne)
  · rw [value_innerProduct ha, value_innerProduct hb, dot_comm]
  · rw [value_cosine ha hb, value_cosine hb ha, dot_comm]

end Similarity

/-- Over the real numbers: a text is compared with one of the same words, leaving out the particle,
and with one of another word; and a vector of one word with one of two, in both orders. -/
theorem similarities_cosine_sunlight :
    (similarities "sun 的 light" ["light sun", "moon"] : List RealNumber) = [⟨1⟩, ⟨0⟩] ∧
    (cosine [("light", ⟨1⟩)] [("light", ⟨3⟩), ("sun", ⟨4⟩)] : RealNumber) =
      cosine [("light", ⟨3⟩), ("sun", ⟨4⟩)] [("light", ⟨1⟩)] := by
  have hreal : ∀ {x y : RealNumber}, value x = value y → x = y := fun {x y} h => by
    cases x
    cases y
    exact congrArg RealNumber.mk h
  obtain ⟨hcompares, -, -, -, hsymmetric⟩ := similarities_cosine (S := RealNumber)
  have htext : terms "sun 的 light" = ["sun", "light"] := by decide +kernel
  have hsame : terms "light sun" = ["light", "sun"] := by decide +kernel
  have hother : terms "moon" = ["moon"] := by decide +kernel
  have hone : Table.Ordered [("light", (⟨1⟩ : RealNumber))] := List.pairwise_singleton _ _
  have htwo : Table.Ordered [("light", (⟨3⟩ : RealNumber)), ("sun", ⟨4⟩)] :=
    List.pairwise_pair.2 (by decide)
  refine ⟨?_, hreal (hsymmetric _ _ hone htwo).2⟩
  have hall := hcompares "sun 的 light" ["light sun", "moon"]
  generalize (similarities "sun 的 light" ["light sun", "moon"] : List RealNumber) = found at hall
  rcases hall with _ | ⟨hfirst, _ | ⟨hsecond, _ | _⟩⟩
  have hvalue := hfirst.eq_one (by rw [htext, hsame]; decide) (by rw [htext]; decide)
  have hzero := hsecond.eq_zero_iff.2 (by rw [htext, hother]; simp)
  rw [hreal (y := ⟨1⟩) hvalue, hreal (y := ⟨0⟩) hzero]

end GraphReasoner.Query
