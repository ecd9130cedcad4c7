import GraphReasoner.Proofs.Query.Occurrence
import Mathlib.Data.List.Forall2
import Mathlib.Data.String.Basic

/-!
# The positions of the tokens

A position counts the bytes of the lowercase text before it, so the search hands out byte offsets
without ever looking at a byte. They are offsets that text can be cut at: what comes before a
position is a list of characters (`GraphReasoner.Query.StandsIn`), and its bytes are the bytes of a
string (`GraphReasoner.Query.byteLength_eq`).

The search could go wrong in two ways. It could meet a token inside a longer one that comes earlier,
and then the next tokens would be looked for too early; or it could go past a token and then not
find it at all, and the position would be that of the token before. Neither happens. From the end of
one word to the beginning of the next there are only breaks, at which no token begins.

* `GraphReasoner.Query.locate_exact` – every token is found, stands at its position as a whole word,
  and ends before the next position.
-/

namespace GraphReasoner.Query

open GraphReasoner.Text

/-- The length of a text is the number of bytes of a string. -/
theorem byteLength_eq (text : List Char) : byteLength text = (String.ofList text).utf8ByteSize := by
  induction text with
  | nil => rfl
  | cons c text ih =>
    rw [byteLength, ih, String.utf8ByteSize_ofList, String.utf8ByteSize_ofList,
      String.utf8Len_cons, Nat.add_comm]

theorem byteLength_pos {word : List Char} (h : word ≠ []) : 0 < byteLength word := by
  obtain ⟨c, rest, rfl⟩ := List.exists_cons_of_ne_nil h
  exact Nat.add_pos_left c.utf8Size_pos _

/-- **A token stands in a lowercase text** at an offset: so many bytes make up the characters before
it, a break or nothing comes before it, and a break or nothing after it. -/
def StandsIn (lowered token : List Char) (offset : Nat) : Prop :=
  ∃ before after, lowered = before ++ (token ++ after) ∧
    offset = (String.ofList before).utf8ByteSize ∧ EndsBroken before ∧ StartsBroken after

namespace LowersEach

variable {text token : List Char} {position : Nat}

/-- To put a text into lowercase keeps a break at its end. -/
theorem endsBroken_lower (heach : LowersEach text) (h : EndsBroken text) :
    EndsBroken (lower text) := by
  rcases List.eq_nil_or_concat text with rfl | ⟨front, last, rfl⟩
  · exact nofun
  · rw [List.concat_eq_append] at heach h ⊢
    have hlast : isBreak last = true := h last (by simp)
    have hgap : lower [last] = [last] :=
      heach.right.lower_gap fun c hc => List.mem_singleton.1 hc ▸ hlast
    rw [heach.lower_append, hgap]
    intro c hc
    obtain rfl : last = c := by simpa using hc
    exact hlast

/-- To put a text into lowercase keeps a break at its beginning. -/
theorem startsBroken_lower (heach : LowersEach text) (h : StartsBroken text) :
    StartsBroken (lower text) := by
  cases text with
  | nil => exact nofun
  | cons first rest =>
    have hfirst : isBreak first = true := h first rfl
    have hparts : LowersEach ([first] ++ rest) := heach
    have hgap : lower [first] = [first] :=
      hparts.left.lower_gap fun c hc => List.mem_singleton.1 hc ▸ hfirst
    rw [← List.singleton_append, hparts.lower_append, hgap]
    intro c hc
    obtain rfl : first = c := by simpa using hc
    exact hfirst

/-- **Where a word of the text stands**, its token stands in the lowercase text. -/
theorem standsIn (heach : LowersEach text) (h : TokenAt text token position) :
    StandsIn (lower text) token position := by
  obtain ⟨before, word, after, rfl, hbefore, -, hafter, rfl, rfl⟩ := h
  refine ⟨lower before, lower after, ?_, byteLength_eq _, heach.left.endsBroken_lower hbefore,
    heach.right.right.startsBroken_lower hafter⟩
  rw [heach.lower_append, heach.right.lower_append]

/-- The tokens one after another, each with its position, are the words of the text. -/
theorem forall₂_standsIn (heach : LowersEach text) :
    List.Forall₂ (StandsIn (lower text)) (tokens text) (locate (lower text) 0 (tokens text)) := by
  refine List.forall₂_iff_zip.2 ⟨(length_locate _ _ _).symm, fun hpair => ?_⟩
  exact heach.standsIn (heach.mem_occurrences.1 hpair)

end LowersEach

theorem TokenAt.ne_nil {text token : List Char} {position : Nat} (heach : LowersEach text)
    (h : TokenAt text token position) : token ≠ [] := by
  obtain ⟨before, word, after, rfl, -, hword, -, rfl, -⟩ := h
  exact (heach.right.left.isWord_lower hword).ne_nil

/-- **The search finds the tokens exactly where they stand.** Let a text be put into lowercase
character by character. Then every search for a token finds it, and what stands at its position is
this token, as a whole word on the boundary of a character. The positions ascend strictly, and a
token ends before the next one begins. -/
theorem locate_exact {text : List Char} (heach : LowersEach text) :
    let positions := locate (lower text) 0 (tokens text)
    Locates (lower text) 0 (tokens text) positions ∧
      List.Forall₂ (StandsIn (lower text)) (tokens text) positions ∧
      positions.Pairwise (· < ·) ∧
      ((tokens text).zip positions).Pairwise fun a b =>
        a.2 + (String.ofList a.1).utf8ByteSize ≤ b.2 := by
  have hspells := heach.spells_occurrences
  have hlocates := hspells.locates heach
  have hordered := hspells.ordered.2
  rw [map_fst_occurrences] at hlocates
  have hpositions : (occurrences text).map Prod.snd = locate (lower text) 0 (tokens text) :=
    hlocates.locate_eq.symm
  refine ⟨hpositions ▸ hlocates, heach.forall₂_standsIn, ?_, ?_⟩
  · rw [← hpositions, List.pairwise_map]
    -- a token has at least one byte
    refine hordered.imp_of_mem fun {a b} ha _ hab => ?_
    have hpos := byteLength_pos ((heach.mem_occurrences.1 ha).ne_nil heach)
    omega
  · exact hordered.imp fun hab => byteLength_eq _ ▸ hab

/-- The text begins with a token that occurs inside the second one, and ends with one that occurs in
both. -/
theorem locate_exact_tomato :
    LowersEach "To İTomato to-to ma".toList ∧
      (locate (lower "To İTomato to-to ma".toList) 0 (tokens "To İTomato to-to ma".toList)).Pairwise
        (· < ·) := by
  have heach : LowersEach "To İTomato to-to ma".toList := lowersEach (by decide)
  exact ⟨heach, (locate_exact heach).2.2.1⟩

/-- The second word begins with a letter of two bytes. Its lowercase form has three, and these are
counted. -/
example : locate (lower "To İTomato to-to ma".toList) 0 (tokens "To İTomato to-to ma".toList) =
    [0, 3, 13, 19] := by
  decide +kernel

end GraphReasoner.Query
