import GraphReasoner.Query.Mention
import Mathlib.Data.List.TakeWhile

/-!
# Where the tokens of a question stand

The tokens of a question are found by cutting its text at blanks and punctuation, and their places
by looking for them in the lowercase text, each after the one before. The second knows nothing of
the first, and a token may well occur inside another one; still the places are right, as long as
lowercase text is lowercase character by character.

The text is taken apart into gaps and words (`GraphReasoner.Query.Spells`), and both the tokens and
their places follow this. What makes the search meet the right place is that putting a text into
lowercase neither makes nor removes a gap (`GraphReasoner.Query.lowerChar_of_isBreak`,
`GraphReasoner.Query.isBreak_of_mem_lowerChar`): what stands between two words has no place where a
token could begin.

* `GraphReasoner.Query.mem_occurrences_iff` – the occurrences of tokens are the maximal runs of
  characters of words, each with the length of the text before it.
-/

namespace GraphReasoner.Query

open GraphReasoner.Text

/-! ### Breaks -/

/-- Whether a character parts tokens. -/
def isBreak (c : Char) : Bool :=
  isBlank c || isSeparator c

/-- The code points that part tokens. -/
def breakRanges : List (Nat × Nat) :=
  [(9, 13), (32, 44), (46, 47), (58, 64), (91, 94), (96, 96), (123, 126), (0x85, 0x85),
    (0xa0, 0xa0), (0x1680, 0x1680), (0x2000, 0x200a), (0x2028, 0x2029), (0x202f, 0x202f),
    (0x205f, 0x205f), (0x3000, 0x3002), (0xff01, 0xff01), (0xff0c, 0xff0c), (0xff1a, 0xff1b),
    (0xff1f, 0xff1f)]

theorem isBreak_iff {c : Char} : isBreak c = true ↔ inRanges breakRanges c.toNat = true := by
  have hchar : ∀ d : Char, c = d ↔ c.toNat = d.toNat := fun d => Char.toNat_inj.symm
  simp [isBreak, isBlank, isSeparator, isPunctuation, inRanges, breakRanges, hchar]
  omega

/-- Capitals and what they become stand apart from the code points that part tokens. -/
theorem lowerRanges_apart : ∀ r ∈ lowerRanges, ∀ b ∈ breakRanges,
    (b.2 < r.first ∨ r.last < b.1) ∧
      ((b.2 : Int) < r.first + r.distance ∨ r.last + r.distance < b.1) := by
  decide +kernel

/-- The same for ASCII. -/
theorem toLower_apart : ∀ n < 128,
    if inRanges breakRanges n = true then (Char.ofNat n).toLower = Char.ofNat n
    else inRanges breakRanges (Char.ofNat n).toLower.toNat = false := by
  decide +kernel

theorem mem_inRanges {ranges : List (Nat × Nat)} {n : Nat} :
    inRanges ranges n = true ↔ ∃ b ∈ ranges, b.1 ≤ n ∧ n ≤ b.2 := by
  simp [inRanges]

/-- The last case of the lowercase form: the character belongs to a run of capitals, or stays. -/
theorem lowerChar_cases {c : Char} (hn : 128 ≤ c.toNat) (hdot : c.toNat ≠ 0x130) :
    (∃ r ∈ lowerRanges, r.first ≤ c.toNat ∧ c.toNat ≤ r.last ∧
      lowerChar c = [Char.ofNat ((c.toNat : Int) + r.distance).toNat]) ∨ lowerChar c = [c] := by
  rcases h : lowerRanges.find? fun r => r.covers c.toNat with _ | r
  · right
    simp [lowerChar, hdot, h]
    omega
  · left
    have hcovers := List.find?_some h
    simp only [LowerRange.covers, Bool.and_eq_true, decide_eq_true_eq] at hcovers
    refine ⟨r, List.mem_of_find?_eq_some h, hcovers.1.1, hcovers.1.2, ?_⟩
    simp [lowerChar, hdot, h]
    omega

/-- **What parts tokens is its own lowercase form.** -/
theorem lowerChar_of_isBreak {c : Char} (h : isBreak c = true) : lowerChar c = [c] := by
  have hranges := isBreak_iff.1 h
  rcases Nat.lt_or_ge c.toNat 128 with hn | hn
  · have hlower := toLower_apart c.toNat hn
    rw [if_pos hranges, Char.ofNat_toNat] at hlower
    simp [lowerChar, hn, hlower]
  · have hdot : c.toNat ≠ 0x130 := fun heq => by
      rw [heq] at hranges
      exact absurd hranges (by decide +kernel)
    rcases lowerChar_cases hn hdot with ⟨r, hr, hfirst, hlast, -⟩ | hsame
    · obtain ⟨b, hb, hlow, hhigh⟩ := mem_inRanges.1 hranges
      have hapart := (lowerRanges_apart r hr b hb).1
      omega
    · exact hsame

/-- A number is a code point, or stands for the code point zero. -/
theorem toNat_ofNat_cases (n : Nat) : (Char.ofNat n).toNat = n ∨ (Char.ofNat n).toNat = 0 := by
  by_cases hvalid : n.isValidChar
  · left
    rw [Char.ofNat, dif_pos hvalid]
    rfl
  · right
    rw [Char.ofNat, dif_neg hvalid]
    rfl

theorem breakRanges_pos : ∀ b ∈ breakRanges, 0 < b.1 := by
  decide

/-- **What does not part tokens becomes nothing that does.** -/
theorem isBreak_of_mem_lowerChar {c d : Char} (h : isBreak c = false) (hd : d ∈ lowerChar c) :
    isBreak d = false := by
  rw [← Bool.not_eq_true, isBreak_iff, Bool.not_eq_true] at h ⊢
  rcases Nat.lt_or_ge c.toNat 128 with hn | hn
  · have hlower := toLower_apart c.toNat hn
    rw [if_neg (by simp [h]), Char.ofNat_toNat] at hlower
    simp only [lowerChar, hn, if_true, List.mem_singleton] at hd
    rw [hd, hlower]
  by_cases hdot : c.toNat = 0x130
  · have hboth : d = 'i' ∨ d = Char.ofNat 0x307 := by
      simpa [lowerChar, hdot] using hd
    rcases hboth with rfl | rfl <;> decide +kernel
  rcases lowerChar_cases hn hdot with ⟨r, hr, hfirst, hlast, hsame⟩ | hsame <;>
    rw [hsame, List.mem_singleton] at hd <;> subst hd
  · rw [← Bool.not_eq_true, mem_inRanges]
    rintro ⟨b, hb, hlow, hhigh⟩
    have hpos := breakRanges_pos b hb
    have hapart := (lowerRanges_apart r hr b hb).2
    rcases toNat_ofNat_cases ((c.toNat : Int) + r.distance).toNat with heq | heq <;> omega
  · exact h

theorem lowerChar_ne_nil (c : Char) : lowerChar c ≠ [] := by
  unfold lowerChar
  dsimp only
  split
  · simp
  split
  · simp
  split <;> simp

/-! ### Words -/

/-- **A word**: characters that do not part tokens, one at least. -/
structure IsWord (word : List Char) : Prop where
  ne_nil : word ≠ []
  unbroken : ∀ c ∈ word, isBreak c = false

/-- The lowercase form of a word is a word. -/
theorem IsWord.flatMap_lowerChar {word : List Char} (h : IsWord word) :
    IsWord (word.flatMap lowerChar) where
  ne_nil := by
    obtain ⟨c, rest, rfl⟩ := List.exists_cons_of_ne_nil h.ne_nil
    simp [lowerChar_ne_nil]
  unbroken d hd := by
    obtain ⟨c, hc, hd⟩ := List.mem_flatMap.1 hd
    exact isBreak_of_mem_lowerChar (h.unbroken c hc) hd

/-- The lowercase form of a gap is the gap. -/
theorem flatMap_lowerChar_gap {gap : List Char} (h : ∀ c ∈ gap, isBreak c = true) :
    gap.flatMap lowerChar = gap := by
  induction gap with
  | nil => rfl
  | cons c gap ih =>
    rw [List.flatMap_cons, lowerChar_of_isBreak (h c List.mem_cons_self),
      ih fun d hd => h d (List.mem_cons_of_mem _ hd)]
    rfl

/-! ### Cutting -/

section Cutting

variable {p : Char → Bool}

theorem cutAt_ne_nil (text : List Char) : cutAt p text ≠ [] := by
  cases text with
  | nil => exact List.cons_ne_nil _ _
  | cons c text =>
    rw [cutAt]
    split
    · exact List.cons_ne_nil _ _
    · split <;> exact List.cons_ne_nil _ _

/-- **A cut falls at a character** that asks for one. -/
theorem cutAt_append_cons {c : Char} (hc : p c = true) (before after : List Char) :
    cutAt p (before ++ c :: after) = cutAt p before ++ cutAt p after := by
  induction before with
  | nil =>
    obtain ⟨piece, pieces, h⟩ := List.exists_cons_of_ne_nil (cutAt_ne_nil (p := p) after)
    simp [cutAt, h, hc]
  | cons d before ih =>
    obtain ⟨piece, pieces, h⟩ := List.exists_cons_of_ne_nil (cutAt_ne_nil (p := p) before)
    rw [List.cons_append, cutAt, cutAt, ih, h]
    cases p d <;> rfl

theorem cutAt_eq_self {text : List Char} (h : ∀ c ∈ text, p c = false) : cutAt p text = [text] := by
  induction text with
  | nil => rfl
  | cons c text ih =>
    rw [cutAt, ih fun d hd => h d (List.mem_cons_of_mem _ hd)]
    simp [h c List.mem_cons_self]

end Cutting

/-- **The tokens fall apart at a break.** -/
theorem tokens_append_cons {c : Char} (hc : isBreak c = true) (before after : List Char) :
    tokens (before ++ c :: after) = tokens before ++ tokens after := by
  simp only [tokens, cutAt_append_cons (p := fun c => isBlank c || isSeparator c) hc,
    List.filter_append, List.map_append]

theorem tokens_nil : tokens [] = [] := rfl

theorem tokens_gap_append {gap : List Char} (h : ∀ c ∈ gap, isBreak c = true) (text : List Char) :
    tokens (gap ++ text) = tokens text := by
  induction gap with
  | nil => rfl
  | cons c gap ih =>
    have hfirst := tokens_append_cons (h c List.mem_cons_self) [] (gap ++ text)
    rw [tokens_nil, List.nil_append, List.nil_append] at hfirst
    rw [List.cons_append, hfirst, ih fun d hd => h d (List.mem_cons_of_mem _ hd)]

theorem tokens_word {word : List Char} (h : IsWord word) : tokens word = [lower word] := by
  rw [tokens, cutAt_eq_self (p := fun c => isBlank c || isSeparator c) h.unbroken]
  simp [h.ne_nil]

/-- What follows a word is a break or the end. -/
def StartsBroken (text : List Char) : Prop :=
  ∀ c ∈ text.head?, isBreak c = true

theorem tokens_word_append {word rest : List Char} (h : IsWord word) (hrest : StartsBroken rest) :
    tokens (word ++ rest) = lower word :: tokens rest := by
  cases rest with
  | nil => rw [List.append_nil, tokens_word h, tokens_nil]
  | cons c rest =>
    have hc : isBreak c = true := hrest c rfl
    have hfirst := tokens_append_cons hc [] rest
    rw [tokens_nil, List.nil_append, List.nil_append] at hfirst
    rw [tokens_append_cons hc, tokens_word h, hfirst]
    rfl

/-! ### Searching -/

theorem byteLength_append (text more : List Char) :
    byteLength (text ++ more) = byteLength text + byteLength more := by
  induction text with
  | nil => simp [byteLength]
  | cons c text ih => rw [List.cons_append, byteLength, ih, byteLength, Nat.add_assoc]

theorem afterStart_append (pattern rest : List Char) :
    afterStart pattern (pattern ++ rest) = some rest := by
  induction pattern with
  | nil => rfl
  | cons c pattern ih => rw [List.cons_append, afterStart, if_pos rfl, ih]

/-- **The first word is found where it stands**, because no place in the gap before it can be its
beginning. -/
theorem find_gap_append {gap word : List Char} (hgap : ∀ c ∈ gap, isBreak c = true)
    (hword : IsWord word) (start : Nat) (rest : List Char) :
    find word start (gap ++ (word ++ rest)) = some (start + byteLength gap, rest) := by
  obtain ⟨first, others, rfl⟩ := List.exists_cons_of_ne_nil hword.ne_nil
  induction gap generalizing start with
  | nil =>
    have hhere := afterStart_append (first :: others) rest
    rw [List.cons_append] at hhere
    rw [List.nil_append, List.cons_append, find, hhere]
    simp [byteLength]
  | cons c gap ih =>
    have hne : first ≠ c := by
      rintro rfl
      have hbreak := hgap first List.mem_cons_self
      rw [hword.unbroken first List.mem_cons_self] at hbreak
      cases hbreak
    rw [List.cons_append, find, afterStart, if_neg hne]
    simp only
    rw [ih (fun d hd => hgap d (List.mem_cons_of_mem _ hd)), byteLength, Nat.add_assoc]

theorem afterStart_eq_some {pattern text rest : List Char}
    (h : afterStart pattern text = some rest) : text = pattern ++ rest := by
  induction pattern generalizing text with
  | nil => exact Option.some.inj h
  | cons p pattern ih =>
    rcases text with _ | ⟨c, text⟩
    · cases h
    · rw [afterStart] at h
      split at h
      · rename_i heq
        rw [heq, ih h]
        rfl
      · cases h

theorem isSome_find_iff {pattern text : List Char} {start : Nat} :
    (find pattern start text).isSome = true ↔ pattern <:+: text := by
  induction text generalizing start with
  | nil =>
    rw [find, List.infix_nil]
    cases pattern <;> simp
  | cons c text ih =>
    rw [find, List.infix_cons_iff]
    rcases hstart : afterStart pattern (c :: text) with _ | rest
    · simp only [ih, iff_or_self]
      rintro ⟨rest, heq⟩
      rw [← heq, afterStart_append] at hstart
      cases hstart
    · simp only [Option.isSome_some, true_iff]
      exact Or.inl ⟨rest, (afterStart_eq_some hstart).symm⟩

/-- **A text occurs in another** when it is a part of it. -/
theorem occursIn_iff {pattern text : List Char} :
    occursIn pattern text = true ↔ pattern <:+: text :=
  isSome_find_iff

/-! ### Gaps and words -/

/-- **A text as gaps and words**, with the tokens that the words make and their places, when the
text begins at a given place. -/
inductive Spells : Nat → List Char → List (List Char × Nat) → Prop
  /-- No word is left. -/
  | gap {start : Nat} {gap : List Char} : (∀ c ∈ gap, isBreak c = true) → Spells start gap []
  /-- A word after a gap, before a gap or the end. -/
  | word {start : Nat} {gap word rest : List Char} {occurrences : List (List Char × Nat)} :
      (∀ c ∈ gap, isBreak c = true) → IsWord word → StartsBroken rest →
      Spells (start + byteLength gap + byteLength (lower word)) rest occurrences →
      Spells start (gap ++ (word ++ rest)) ((lower word, start + byteLength gap) :: occurrences)

theorem startsBroken_dropWhile (text : List Char) :
    StartsBroken (text.dropWhile fun c => !isBreak c) := fun c hc => by
  have hnot := List.head?_dropWhile_not (fun c => !isBreak c) text
  rw [Option.mem_def.1 hc] at hnot
  simpa using hnot

/-- **Every text is gaps and words.** -/
theorem exists_spells (start : Nat) (text : List Char) : ∃ os, Spells start text os := by
  -- on the length, as a gap and a word are taken off together
  induction hlength : text.length using Nat.strongRecOn generalizing start text with
  | ind n ih =>
    subst hlength
    have hgap : ∀ c ∈ text.takeWhile isBreak, isBreak c = true := fun c hc =>
      List.mem_takeWhile_imp hc
    have hsplit := List.takeWhile_append_dropWhile (p := isBreak) (l := text)
    have hfirst := List.head?_dropWhile_not isBreak text
    generalize text.takeWhile isBreak = gap at *
    generalize text.dropWhile isBreak = later at *
    subst hsplit
    rcases later with _ | ⟨first, others⟩
    · exact ⟨[], by simpa using Spells.gap hgap⟩
    have hword : IsWord ((first :: others).takeWhile fun c => !isBreak c) := by
      refine ⟨?_, fun c hc => by simpa using List.mem_takeWhile_imp hc⟩
      have hletter : isBreak first = false := by simpa using hfirst
      simp [hletter]
    have hrest := startsBroken_dropWhile (first :: others)
    have hsplit := List.takeWhile_append_dropWhile (p := fun c => !isBreak c) (l := first :: others)
    generalize (first :: others).takeWhile (fun c => !isBreak c) = word at *
    generalize (first :: others).dropWhile (fun c => !isBreak c) = rest at *
    rw [← hsplit] at ih ⊢
    obtain ⟨os, hos⟩ := ih rest.length (by
      have hpos := List.length_pos_iff.2 hword.ne_nil
      simp only [List.length_append]
      omega) (start + byteLength gap + byteLength (lower word)) rest rfl
    exact ⟨_, .word hgap hword hrest hos⟩

/-! ### Lowercase character by character -/

/-- **Lowercase text is lowercase character by character**, for a text and for each of its parts. -/
def LowersEach (text : List Char) : Prop :=
  ∀ part, part <:+: text → lower part = part.flatMap lowerChar

/-- A text without a capital sigma is one. -/
theorem lowersEach {text : List Char} (h : capitalSigma ∉ text) : LowersEach text :=
  fun _ hpart => lower_eq_flatMap fun hin => h (hpart.subset hin)

namespace LowersEach

variable {text more gap word rest : List Char}

theorem part (h : LowersEach text) (hmore : more <:+: text) : LowersEach more :=
  fun _ hpart => h _ (hpart.trans hmore)

theorem left (h : LowersEach (text ++ more)) : LowersEach text :=
  h.part (List.prefix_append text more).isInfix

theorem right (h : LowersEach (text ++ more)) : LowersEach more :=
  h.part (List.suffix_append text more).isInfix

theorem lower_append (h : LowersEach (text ++ more)) :
    lower (text ++ more) = lower text ++ lower more := by
  rw [h _ (List.infix_refl _), h.left _ (List.infix_refl _), h.right _ (List.infix_refl _),
    List.flatMap_append]

/-- The lowercase form of a gap is the gap. -/
theorem lower_gap (h : LowersEach gap) (hgap : ∀ c ∈ gap, isBreak c = true) : lower gap = gap := by
  rw [h _ (List.infix_refl _), flatMap_lowerChar_gap hgap]

/-- The lowercase form of a word is a word. -/
theorem isWord_lower (h : LowersEach word) (hword : IsWord word) : IsWord (lower word) :=
  h _ (List.infix_refl _) ▸ hword.flatMap_lowerChar

theorem lower_parts (h : LowersEach (gap ++ (word ++ rest))) (hgap : ∀ c ∈ gap, isBreak c = true) :
    lower (gap ++ (word ++ rest)) = gap ++ (lower word ++ lower rest) := by
  rw [h.lower_append, h.right.lower_append, h.left.lower_gap hgap]

end LowersEach

/-- **Every search finds its token**: each one is looked for after the one before, and its position
is where it is found. -/
inductive Locates : List Char → Nat → List (List Char) → List Nat → Prop
  /-- No token is left. -/
  | nil {text : List Char} {start : Nat} : Locates text start [] []
  /-- The next token is found, and the others in what follows it. -/
  | cons {text rest token : List Char} {start position : Nat} {ts : List (List Char)}
      {positions : List Nat} : find token start text = some (position, rest) →
      Locates rest (position + byteLength token) ts positions →
      Locates text start (token :: ts) (position :: positions)

theorem Locates.locate_eq {text : List Char} {start : Nat} {ts : List (List Char)}
    {positions : List Nat} (h : Locates text start ts positions) :
    locate text start ts = positions := by
  induction h with
  | nil => rfl
  | cons hfind _ ih =>
    rw [locate, hfind]
    exact congrArg _ ih

namespace Spells

variable {start : Nat} {text : List Char} {os : List (List Char × Nat)}

/-- The tokens of a text are its words, in lowercase. -/
theorem tokens_eq (h : Spells start text os) : tokens text = os.map Prod.fst := by
  induction h with
  | gap hgap =>
    have hall := tokens_gap_append hgap []
    rwa [List.append_nil, tokens_nil] at hall
  | word hgap hword hrest _ ih =>
    rw [tokens_gap_append hgap, tokens_word_append hword hrest, ih]
    rfl

/-- **The search finds the words where they stand.** -/
theorem locates (h : Spells start text os) (hlower : LowersEach text) :
    Locates (lower text) start (os.map Prod.fst) (os.map Prod.snd) := by
  induction h with
  | gap => exact .nil
  | word hgap hword _ _ ih =>
    have hlowered := hlower.right.left.isWord_lower hword
    rw [hlower.lower_parts hgap]
    exact .cons (find_gap_append hgap hlowered _ _) (ih hlower.right.right)

/-- **One occurrence ends before the next begins.** -/
theorem ordered (h : Spells start text os) :
    (∀ o ∈ os, start ≤ o.2) ∧ os.Pairwise fun a b => a.2 + byteLength a.1 ≤ b.2 := by
  induction h with
  | gap => exact ⟨nofun, List.Pairwise.nil⟩
  | word _ _ _ _ ih =>
    refine ⟨List.forall_mem_cons.2 ⟨Nat.le_add_right _ _, fun o ho => ?_⟩,
      List.pairwise_cons.2 ⟨fun o ho => ih.1 o ho, ih.2⟩⟩
    have hlater := ih.1 o ho
    omega

end Spells

/-! ### Maximal runs -/

/-- What comes before a word is a break or the beginning. -/
def EndsBroken (text : List Char) : Prop :=
  ∀ c ∈ text.getLast?, isBreak c = true

/-- **A token stands at a position** of a text: it is the lowercase form of a word that no longer
word contains, and the position is the length of the lowercase text before it. -/
def TokenAt (text token : List Char) (position : Nat) : Prop :=
  ∃ before word after, text = before ++ (word ++ after) ∧
    EndsBroken before ∧ IsWord word ∧ StartsBroken after ∧
    token = lower word ∧ position = byteLength (lower before)

/-- A word that ends where it has to is settled by where it begins. -/
theorem IsWord.append_inj {word other rest after : List Char} (hword : IsWord word)
    (hother : IsWord other) (hrest : StartsBroken rest) (hafter : StartsBroken after)
    (h : word ++ rest = other ++ after) : word = other ∧ rest = after := by
  have htake : ∀ {w r : List Char}, IsWord w → StartsBroken r →
      (w ++ r).takeWhile (fun c => !isBreak c) = w := fun {w r} hw hr => by
    rw [List.takeWhile_append_of_pos fun c hc => by simp [hw.unbroken c hc]]
    cases r with
    | nil => simp
    | cons c r =>
      have hc : isBreak c = true := hr c rfl
      simp [hc]
  have hsame : word = other := by rw [← htake hword hrest, h, htake hother hafter]
  subst hsame
  exact ⟨rfl, List.append_cancel_left h⟩

/-- What ends with a letter does not end with a break. -/
theorem not_endsBroken_append {text word : List Char} (hword : IsWord word) :
    ¬EndsBroken (text ++ word) := by
  intro h
  obtain ⟨word, last, rfl⟩ := List.eq_nil_or_concat word |>.resolve_left hword.ne_nil
  have hbreak := h last (by simp)
  rw [hword.unbroken last (by simp)] at hbreak
  cases hbreak

/-- **The first word, or a word further on.** -/
theorem parts_cases {gap word rest before other after : List Char}
    (hgap : ∀ c ∈ gap, isBreak c = true) (hword : IsWord word) (hrest : StartsBroken rest)
    (h : gap ++ (word ++ rest) = before ++ (other ++ after)) (hbefore : EndsBroken before)
    (hother : IsWord other) (hafter : StartsBroken after) :
    before = gap ∧ other = word ∨
      ∃ middle, before = gap ++ (word ++ middle) ∧ rest = middle ++ (other ++ after) ∧
        EndsBroken middle := by
  rcases List.append_eq_append_iff.1 h with ⟨x, rfl, hx⟩ | ⟨x, rfl, hx⟩
  · rcases List.append_eq_append_iff.1 hx with ⟨y, rfl, hy⟩ | ⟨y, rfl, hy⟩
    · refine Or.inr ⟨y, rfl, hy, ?_⟩
      rcases List.eq_nil_or_concat y with rfl | ⟨y, last, rfl⟩
      · rw [List.append_nil] at hbefore
        exact absurd hbefore (not_endsBroken_append hword)
      · intro c hc
        refine hbefore c ?_
        simpa using hc
    · -- the other word begins inside the first one, so at its beginning
      rcases eq_or_ne x [] with rfl | hx
      · exact Or.inl ⟨List.append_nil gap, (hother.append_inj hword hafter hrest hy).1⟩
      · have hx : IsWord x := ⟨hx, fun c hc => hword.unbroken c (List.mem_append_left y hc)⟩
        exact absurd hbefore (not_endsBroken_append hx)
  · -- the other word begins inside the gap, so at its end
    rcases x with _ | ⟨c, x⟩
    · exact Or.inl ⟨(List.append_nil before).symm, (hother.append_inj hword hafter hrest hx).1⟩
    · obtain ⟨first, others, rfl⟩ := List.exists_cons_of_ne_nil hother.ne_nil
      have hfirst : first = c := (List.cons.inj hx).1
      have hbreak := hgap c (by simp)
      rw [← hfirst, hother.unbroken first List.mem_cons_self] at hbreak
      cases hbreak

/-- Where the words of a text with a gap and a word before it stand. -/
theorem tokenAt_cons_iff {gap word rest token : List Char} {position : Nat}
    (hgap : ∀ c ∈ gap, isBreak c = true) (hword : IsWord word) (hrest : StartsBroken rest)
    (heach : LowersEach (gap ++ (word ++ rest))) :
    TokenAt (gap ++ (word ++ rest)) token position ↔
      token = lower word ∧ position = byteLength gap ∨
        ∃ q, TokenAt rest token q ∧ position = byteLength gap + byteLength (lower word) + q := by
  have hlower : lower gap = gap := heach.left.lower_gap hgap
  have hlength : ∀ {middle more}, rest = middle ++ more →
      byteLength (lower (gap ++ (word ++ middle))) =
        byteLength gap + byteLength (lower word) + byteLength (lower middle) := by
    rintro middle more rfl
    have hfront : LowersEach (gap ++ (word ++ middle)) :=
      heach.part ⟨[], more, by simp⟩
    rw [hfront.lower_parts hgap, byteLength_append, byteLength_append, Nat.add_assoc]
  constructor
  · rintro ⟨before, other, after, h, hbefore, hother, hafter, rfl, rfl⟩
    rcases parts_cases hgap hword hrest h hbefore hother hafter with
      ⟨rfl, rfl⟩ | ⟨middle, rfl, hmiddle, hends⟩
    · exact Or.inl ⟨rfl, by rw [hlower]⟩
    · exact Or.inr ⟨_, ⟨middle, other, after, hmiddle, hends, hother, hafter, rfl, rfl⟩,
        hlength hmiddle⟩
  · rintro (⟨rfl, rfl⟩ | ⟨q, ⟨middle, other, after, hmiddle, hends, hother, hafter, rfl, rfl⟩, rfl⟩)
    · refine ⟨gap, word, rest, rfl, fun c hc => hgap c (List.mem_of_getLast? hc), hword, hrest,
        rfl, ?_⟩
      rw [hlower]
    · refine ⟨gap ++ (word ++ middle), other, after, by simp [hmiddle], ?_, hother, hafter, rfl,
        (hlength hmiddle).symm⟩
      -- between the two words there is a break, because the first one is as long as it can be
      have hne : middle ≠ [] := by
        rintro rfl
        obtain ⟨first, others, rfl⟩ := List.exists_cons_of_ne_nil hother.ne_nil
        have hbreak := hrest first (by simp [hmiddle])
        rw [hother.unbroken first List.mem_cons_self] at hbreak
        cases hbreak
      obtain ⟨middle, last, rfl⟩ := List.eq_nil_or_concat middle |>.resolve_left hne
      intro c hc
      refine hends c ?_
      simpa using hc

/-- **What is spelled is what stands there.** -/
theorem Spells.mem_iff {start : Nat} {text : List Char} {os : List (List Char × Nat)}
    (h : Spells start text os) (heach : LowersEach text) {token : List Char} {position : Nat} :
    (token, position) ∈ os ↔ ∃ q, TokenAt text token q ∧ position = start + q := by
  induction h with
  | gap hgap =>
    refine ⟨nofun, ?_⟩
    rintro ⟨q, ⟨before, word, after, rfl, -, hword, -⟩, -⟩
    obtain ⟨first, others, rfl⟩ := List.exists_cons_of_ne_nil hword.ne_nil
    have hbreak := hgap first (by simp)
    rw [hword.unbroken first List.mem_cons_self] at hbreak
    cases hbreak
  | @word start gap word rest os hgap hword hrest _ ih =>
    simp only [tokenAt_cons_iff hgap hword hrest heach, List.mem_cons, Prod.mk.injEq,
      ih heach.right.right]
    constructor
    · rintro (⟨rfl, rfl⟩ | ⟨q, hq, rfl⟩)
      · exact ⟨_, Or.inl ⟨rfl, rfl⟩, rfl⟩
      · exact ⟨_, Or.inr ⟨q, hq, rfl⟩, by omega⟩
    · rintro ⟨q, ⟨rfl, rfl⟩ | ⟨q', hq', rfl⟩, rfl⟩
      · exact Or.inl ⟨rfl, rfl⟩
      · exact Or.inr ⟨q', hq', by omega⟩

/-! ### The occurrences of a question -/

/-- The tokens of a question with their positions, as the search finds them. -/
def occurrences (text : List Char) : List (List Char × Nat) :=
  (tokens text).zip (locate (lower text) 0 (tokens text))

theorem length_locate (text : List Char) (start : Nat) (ts : List (List Char)) :
    (locate text start ts).length = ts.length := by
  induction ts generalizing text start with
  | nil => rfl
  | cons token ts ih =>
    rw [locate]
    split <;> rw [List.length_cons, List.length_cons, ih]

/-- Every token has an occurrence. -/
theorem map_fst_occurrences (text : List Char) : (occurrences text).map Prod.fst = tokens text :=
  List.map_fst_zip (length_locate _ _ _).ge

namespace LowersEach

variable {text : List Char} (heach : LowersEach text)
include heach

/-- The occurrences of a text are its words, one after another. -/
theorem spells_occurrences : Spells 0 text (occurrences text) := by
  obtain ⟨os, hos⟩ := exists_spells 0 text
  rw [occurrences, hos.tokens_eq, (hos.locates heach).locate_eq, ← List.zip_of_prod rfl rfl]
  exact hos

/-- **The search finds the tokens where they stand.** -/
theorem mem_occurrences {token : List Char} {position : Nat} :
    (token, position) ∈ occurrences text ↔ TokenAt text token position := by
  rw [heach.spells_occurrences.mem_iff heach]
  simp only [Nat.zero_add, exists_eq_right']

end LowersEach

theorem mem_occurrences_iff {text token : List Char} (hsigma : capitalSigma ∉ text)
    {position : Nat} : (token, position) ∈ occurrences text ↔ TokenAt text token position :=
  (lowersEach hsigma).mem_occurrences

/-- The occurrences are found in the order of the text. -/
theorem pairwise_occurrences {text : List Char} (hsigma : capitalSigma ∉ text) :
    (occurrences text).Pairwise fun a b => a.2 + byteLength a.1 ≤ b.2 :=
  (lowersEach hsigma).spells_occurrences.ordered.2

end GraphReasoner.Query
