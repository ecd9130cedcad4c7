import GraphReasoner.Proofs.Json.Number

/-!
# Integers and numbers are told apart by their texts

A document keeps integers apart from other numbers by nothing but their texts. A finite number is
always written with a mark, a point or an exponent, whatever its digits are
(`GraphReasoner.Json.exists_isMark_of_finite`), and a text with a mark is never read as an integer
(`GraphReasoner.Json.isMark_eq_false_of_read`). So as soon as the text of every finite number
denotes that number (`GraphReasoner.Json.PrintsExactly`), it is read as a number and not as an
integer (`GraphReasoner.Json.PrintsExactly.rereads`), also when its value is an integer, a negative
zero or past the greatest integer.
-/

namespace GraphReasoner.Json

open Decimal (positionalText exponentText)

variable {S : Type} [Numeral S] {text more : List Char}

/-- Whether a character marks a number that is no integer. -/
def isMark (c : Char) : Bool :=
  c == '.' || c == 'e'

/-! ### What is written -/

theorem point_mem_positionalText (digits : List Char) (power point : Int) :
    '.' ∈ (positionalText ".0" digits power point).toList := by
  unfold positionalText
  split
  · rw [String.toList_append]
    exact List.mem_append_right _ List.mem_cons_self
  split
  · rw [String.toList_ofList]
    exact List.mem_append_right _ List.mem_cons_self
  · rw [String.toList_ofList]
    exact List.mem_append_left _ (List.mem_cons_of_mem _ List.mem_cons_self)

theorem exponent_mem_exponentText (digits : List Char) (point : Int) :
    'e' ∈ (exponentText digits point).toList := by
  unfold exponentText
  dsimp only
  rw [String.toList_ofList]
  exact List.mem_append_right _ List.mem_cons_self

/-- **Every finite number is written with a mark.** -/
theorem exists_isMark_of_finite {x : S} (hx : Numeral.Finite x) :
    ∃ c ∈ (numberText x).toList, isMark c = true := by
  obtain ⟨negative, mantissa, exponent, hd⟩ := hx
  have htext : numberText x = numberLayout.write (.finite negative mantissa exponent) := by
    rw [numberText, hd]
  rw [htext, Decimal.Layout.write]
  split
  · -- zero has no first digit, so it is written apart
    rw [String.toList_append]
    exact ⟨'.', List.mem_append_right _ List.mem_cons_self, rfl⟩
  · dsimp only
    rw [String.toList_append]
    split
    · exact ⟨'.', List.mem_append_right _ (point_mem_positionalText _ _ _), rfl⟩
    · exact ⟨'e', List.mem_append_right _ (exponent_mem_exponentText _ _), rfl⟩

/-! ### What is read -/

/-- Without digits after it there is no point. -/
theorem eq_of_fractionPart (h : fractionPart text = some ([], more)) : more = text := by
  unfold fractionPart at h
  split at h
  · exact absurd rfl (digits_eq_some_iff.1 h).2.1
  · exact (congrArg Prod.snd (Option.some.inj h)).symm

/-- Without a value there is no exponent. -/
theorem eq_of_exponentPart (h : exponentPart text = some (none, more)) : more = text := by
  have hsome : ∀ {t : List Char} (f : List Char → Int),
      (digits t).map (fun d => (some (f d.1), d.2)) ≠ some (none, more) := by
    intro t f ht
    obtain ⟨d, -, heq⟩ := Option.map_eq_some_iff.1 ht
    cases congrArg Prod.fst heq
  unfold exponentPart at h
  split at h
  · split at h
    · split at h
      · exact absurd h (hsome fun ds => -(digitsValue ds : Int))
      · exact absurd h (hsome fun ds => (digitsValue ds : Int))
      · exact absurd h (hsome fun ds => (digitsValue ds : Int))
    · exact (congrArg Prod.snd (Option.some.inj h)).symm
  · exact (congrArg Prod.snd (Option.some.inj h)).symm

theorem nearest_ne_int (negative : Bool) (number : Nat) (power i : Int) :
    nearest negative number power ≠ (int i : Json S) := by
  unfold nearest
  split <;> intro heq <;> cases heq

/-- **An integer is read from digits alone.** -/
theorem digits_of_readNumber {negative : Bool} {i : Int}
    (h : readNumber (S := S) negative text = some (int i, more)) :
    ∃ ds, text = ds ++ more ∧ ∀ c ∈ ds, c.isDigit = true := by
  unfold readNumber wholePart at h
  simp only [Option.bind_eq_bind, Option.bind_eq_some_iff] at h
  obtain ⟨⟨whole, rest⟩, ⟨⟨ds, rest'⟩, hdigits, -, -, heq⟩, ⟨fraction, rest₂⟩, hfraction,
    ⟨exponent, rest₃⟩, hexponent, hread⟩ := h
  cases heq
  obtain ⟨hread, rfl⟩ := Prod.ext_iff.1 (Option.some.inj hread)
  dsimp only at hread
  rcases ite_eq_iff.1 hread with ⟨hinteger, -⟩ | ⟨-, hnearest⟩
  · -- only a text without a fraction and an exponent makes an integer
    simp only [Bool.and_eq_true, List.isEmpty_iff, Option.isNone_iff_eq_none] at hinteger
    obtain ⟨⟨⟨⟨rfl, rfl⟩, -⟩, -⟩, -⟩ := hinteger
    obtain ⟨rfl, -, hds, -⟩ := digits_eq_some_iff.1 hdigits
    rw [eq_of_exponentPart hexponent, eq_of_fractionPart hfraction]
    exact ⟨ds, rfl, hds⟩
  · exact absurd hnearest (nearest_ne_int _ _ _ i)

theorem isMark_eq_false {c : Char} (h : isSpace c = true ∨ c = '-' ∨ c.isDigit = true) :
    isMark c = false := by
  rw [isMark, Bool.or_eq_false_iff, beq_eq_false_iff_ne, beq_eq_false_iff_ne]
  constructor <;> rintro rfl <;> revert h <;> decide

/-- **What is read as an integer has no mark.** -/
theorem isMark_eq_false_of_read {text : String} {i : Int} (h : read (S := S) text = some (int i)) :
    ∀ c ∈ text.toList, isMark c = false := by
  rw [read] at h
  simp only [Option.bind_eq_bind, Option.bind_eq_some_iff] at h
  obtain ⟨⟨document, rest⟩, hvalue, _, hguard, heq⟩ := h
  obtain rfl : document = int i := by simpa using heq
  have hrest : ∀ c ∈ rest, isMark c = false := by
    have hnil : skipSpaces rest = [] := by
      by_contra hne
      simp [hne] at hguard
    exact fun c hc => isMark_eq_false (.inl (List.dropWhile_eq_nil_iff.1 hnil c hc))
  -- spaces, perhaps a minus, digits, and spaces again
  have hnumber : ∀ c ∈ skipSpaces text.toList, isMark c = false := by
    have hds : ∀ {negative : Bool} {t : List Char},
        readNumber (S := S) negative t = some (int i, rest) → ∀ c ∈ t, isMark c = false := by
      intro negative t ht
      obtain ⟨ds, rfl, hds⟩ := digits_of_readNumber ht
      exact List.forall_mem_append.2
        ⟨fun c hc => isMark_eq_false (.inr (.inr (hds c hc))), hrest⟩
    rcases readNumber_of_readValue hvalue rfl with ⟨t, ht, hread⟩ | hread
    · rw [ht]
      exact List.forall_mem_cons.2 ⟨isMark_eq_false (.inr (.inl rfl)), hds hread⟩
    · exact hds hread
  intro c hc
  rw [← List.takeWhile_append_dropWhile (p := isSpace) (l := text.toList)] at hc
  rcases List.mem_append.1 hc with hc | hc
  · exact isMark_eq_false (.inl (List.mem_takeWhile_imp hc))
  · exact hnumber c hc

/-! ### Both together -/

/-- **Numbers print exactly**: the text of every finite number denotes that number. Whether the text
is that of an integer is left open. -/
def PrintsExactly (S : Type) [Numeral S] : Prop :=
  ∀ x : S, Numeral.Finite x → (read (numberText x)).bind asNumber = some x

/-- **Numbers that print exactly are read as numbers**, and not as integers. -/
theorem PrintsExactly.rereads (h : PrintsExactly S) : Rereads S := by
  intro x hx
  obtain ⟨document, hread, hnumber⟩ := Option.bind_eq_some_iff.1 (h x hx)
  rw [hread]
  cases document with
  | int i =>
    -- the integer may well have the value of the number, but not its text
    obtain ⟨c, hc, hmark⟩ := exists_isMark_of_finite hx
    rw [isMark_eq_false_of_read hread c hc] at hmark
    cases hmark
  | float y => rw [Option.some.inj hnumber]
  | null | bool | string | array | object | unreadable => cases hnumber

end GraphReasoner.Json
