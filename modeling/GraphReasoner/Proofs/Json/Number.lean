import GraphReasoner.Json.Fields
import GraphReasoner.Json.Printer
import GraphReasoner.Json.Reader
import Mathlib.Data.List.DropRight
import Mathlib.Data.Option.Basic

/-!
# Numbers are read back

A number ends where its text can go on no further, so it is read in the same way whatever comes
after it, as long as that is not a digit, a point or an exponent
(`GraphReasoner.Json.Ends`, `GraphReasoner.Json.readNumber_append`). Reading a number that stands in
a document is thereby reduced to reading its text alone.

An integer is written with the digits of its absolute value, which are read as that integer when it
can be kept as one (`GraphReasoner.Json.readNumber_toDigits`). How a number that is no integer is
written is not looked into here: that the reader yields what was printed is a property of the
numbers, `GraphReasoner.Json.Rereads`.
-/

namespace GraphReasoner

namespace Json

/-! ### Where a number ends -/

/-- **Where a number ends**: with the text, or before a character that no number goes on with. -/
def Ends (text : List Char) : Prop :=
  ∀ c ∈ text.head?, c.isDigit = false ∧ c ≠ '.' ∧ c ≠ 'e' ∧ c ≠ 'E'

theorem ends_nil : Ends [] := fun _ h => nomatch h

theorem ends_cons {c : Char} {text : List Char} (hd : c.isDigit = false)
    (hc : c ≠ '.' ∧ c ≠ 'e' ∧ c ≠ 'E') : Ends (c :: text) := by
  intro c' h
  obtain rfl : c = c' := by simpa using h
  exact ⟨hd, hc⟩

variable {text rest ds more : List Char}

/-- **Which digits are read**: all at the front, at least one. -/
theorem digits_eq_some_iff : digits text = some (ds, more) ↔
    text = ds ++ more ∧ ds ≠ [] ∧ (∀ c ∈ ds, c.isDigit = true) ∧
      ∀ c ∈ more.head?, c.isDigit = false := by
  constructor
  · intro h
    rw [digits] at h
    split at h
    · cases h
    · rename_i front hne
      cases h
      refine ⟨List.takeWhile_append_dropWhile.symm, hne, fun c hc => ?_, fun c hc => ?_⟩
      · exact List.mem_takeWhile_imp hc
      · have hnot := List.head?_dropWhile_not Char.isDigit text
        rw [Option.mem_def.1 hc] at hnot
        simpa using hnot
  · rintro ⟨rfl, hne, hds, hmore⟩
    have htake : (ds ++ more).takeWhile Char.isDigit = ds := by
      rw [List.takeWhile_append_of_pos hds]
      cases more with
      | nil => simp
      | cons c more => simp [hmore c rfl]
    have hdrop : (ds ++ more).dropWhile Char.isDigit = more := by
      rw [List.dropWhile_append_of_pos hds]
      cases more with
      | nil => rfl
      | cons c more => simp [hmore c rfl]
    rw [digits, htake, hdrop]
    cases ds with
    | nil => exact absurd rfl hne
    | cons => rfl

theorem digits_append (h : digits text = some (ds, more)) (hrest : Ends rest) :
    digits (text ++ rest) = some (ds, more ++ rest) := by
  obtain ⟨rfl, hne, hds, hmore⟩ := digits_eq_some_iff.1 h
  refine digits_eq_some_iff.2 ⟨List.append_assoc .., hne, hds, fun c hc => ?_⟩
  cases more with
  | nil => exact (hrest c hc).1
  | cons c' more => exact hmore c hc

theorem wholePart_append (h : wholePart text = some (ds, more)) (hrest : Ends rest) :
    wholePart (text ++ rest) = some (ds, more ++ rest) := by
  unfold wholePart at h ⊢
  rcases hd : digits text with _ | ⟨ds', more'⟩ <;> rw [hd] at h
  · cases h
  · rw [digits_append hd hrest]
    simp only [Option.bind_eq_bind, Option.bind_some, Option.bind_eq_some_iff] at h ⊢
    obtain ⟨u, hguard, heq⟩ := h
    cases heq
    exact ⟨u, hguard, rfl⟩

theorem fractionPart_of_ends (h : Ends rest) : fractionPart rest = some ([], rest) := by
  unfold fractionPart
  split
  · exact absurd rfl (h '.' rfl).2.1
  · rfl

theorem fractionPart_append (h : fractionPart text = some (ds, more)) (hrest : Ends rest) :
    fractionPart (text ++ rest) = some (ds, more ++ rest) := by
  cases text with
  | nil =>
    cases h
    exact fractionPart_of_ends hrest
  | cons c text =>
    by_cases hc : c = '.'
    · subst hc
      exact digits_append h hrest
    · rw [fractionPart] at h
      · cases h
        rw [List.cons_append, fractionPart]
        exact fun _ heq => hc (List.cons.inj heq).1
      · exact fun _ heq => hc (List.cons.inj heq).1

theorem exponentPart_of_ends (h : Ends rest) : exponentPart rest = some (none, rest) := by
  cases rest with
  | nil => rfl
  | cons c rest =>
    obtain ⟨-, -, he, hE⟩ := h c rfl
    unfold exponentPart
    simp [he, hE]

theorem exponentPart_append {exponent : Option Int} (h : exponentPart text = some (exponent, more))
    (hrest : Ends rest) : exponentPart (text ++ rest) = some (exponent, more ++ rest) := by
  -- the digits of the exponent, with whatever is made of them
  have happend : ∀ {t : List Char} (f : List Char → Option Int),
      (digits t).map (fun d => (f d.1, d.2)) = some (exponent, more) →
      (digits (t ++ rest)).map (fun d => (f d.1, d.2)) = some (exponent, more ++ rest) := by
    intro t f ht
    obtain ⟨⟨ds, m⟩, hd, heq⟩ := Option.map_eq_some_iff.1 ht
    rw [digits_append hd hrest]
    cases heq
    rfl
  cases text with
  | nil =>
    cases h
    exact exponentPart_of_ends hrest
  | cons c text =>
    unfold exponentPart at h ⊢
    simp only [List.cons_append] at h ⊢
    split at h
    · rename_i he
      rw [if_pos he]
      -- after the letter comes a sign or a digit, so the text has not ended there
      cases text with
      | nil => cases h
      | cons sign text =>
        by_cases hminus : sign = '-'
        · subst hminus
          exact happend (fun ds => some (-(digitsValue ds : Int))) h
        by_cases hplus : sign = '+'
        · subst hplus
          exact happend (fun ds => some (digitsValue ds : Int)) h
        simp only [List.cons_append]
        split at h
        · rename_i heq
          exact absurd (List.cons.inj heq).1 hminus
        · rename_i heq
          exact absurd (List.cons.inj heq).1 hplus
        · split
          · rename_i heq
            exact absurd (List.cons.inj heq).1 hminus
          · rename_i heq
            exact absurd (List.cons.inj heq).1 hplus
          · exact happend (fun ds => some (digitsValue ds : Int)) h
    · rename_i he
      rw [if_neg he]
      cases h
      rfl

variable {S : Type} [Numeral S]

/-- **A number is read in the same way whatever comes after it.** -/
theorem readNumber_append {negative : Bool} {document : Json S}
    (h : readNumber negative text = some (document, more)) (hrest : Ends rest) :
    readNumber negative (text ++ rest) = some (document, more ++ rest) := by
  unfold readNumber at h ⊢
  simp only [Option.bind_eq_bind, Option.bind_eq_some_iff] at h ⊢
  obtain ⟨⟨whole, text₁⟩, hwhole, ⟨fraction, text₂⟩, hfraction, ⟨exponent, text₃⟩, hexponent,
    h⟩ := h
  refine ⟨_, wholePart_append hwhole hrest, _, fractionPart_append hfraction hrest, _,
    exponentPart_append hexponent hrest, ?_⟩
  cases h
  rfl

/-- A number begins with a digit. -/
theorem head?_of_readNumber {negative : Bool} {document : Json S}
    (h : readNumber negative text = some (document, more)) :
    ∃ c rest, text = c :: rest ∧ c.isDigit = true := by
  unfold readNumber wholePart at h
  simp only [Option.bind_eq_bind, Option.bind_eq_some_iff] at h
  obtain ⟨-, ⟨⟨ds, rest⟩, hd, -⟩, -⟩ := h
  obtain ⟨rfl, hne, hds, -⟩ := digits_eq_some_iff.1 hd
  obtain ⟨c, ds, rfl⟩ := List.exists_cons_of_ne_nil hne
  exact ⟨c, ds ++ rest, rfl, hds c List.mem_cons_self⟩

/-! ### Spaces -/

@[simp] theorem skipSpaces_idem (text : List Char) : skipSpaces (skipSpaces text) =
    skipSpaces text :=
  List.dropWhile_idempotent ..

theorem skipSpaces_cons {c : Char} (h : isSpace c = false) : skipSpaces (c :: text) = c :: text :=
  List.dropWhile_cons_of_neg (by simp [h])

theorem skipSpaces_append_of_nil (h : skipSpaces text = []) :
    skipSpaces (text ++ rest) = skipSpaces rest := by
  unfold skipSpaces at h ⊢
  rw [List.dropWhile_append, h]
  rfl

theorem skipSpaces_append_of_cons {c : Char} (h : skipSpaces text = c :: more) :
    skipSpaces (text ++ rest) = c :: (more ++ rest) := by
  unfold skipSpaces at h ⊢
  rw [List.dropWhile_append, h]
  rfl

theorem isSpace_of_isDigit {c : Char} (h : c.isDigit = true) : isSpace c = false := by
  rw [isSpace]
  simp only [Bool.or_eq_false_iff, beq_eq_false_iff_ne]
  refine ⟨⟨⟨?_, ?_⟩, ?_⟩, ?_⟩ <;> rintro rfl <;> cases h

/-! ### Numbers in front of a text -/

theorem readValue_minus {fuel depth : Nat} (h : skipSpaces text = '-' :: rest) :
    readValue (S := S) (fuel + 1) depth text = readNumber true rest := by
  rw [readValue, h]
  rfl

theorem readValue_digit {fuel depth : Nat} {c : Char} (h : skipSpaces text = c :: rest)
    (hc : c.isDigit = true) :
    readValue (S := S) (fuel + 1) depth text = readNumber false (c :: rest) := by
  rw [readValue, h]
  split <;> rename_i heq <;> first | (cases heq; cases hc) | rfl

/-- Only a number is read as one. -/
theorem readNumber_of_readValue {fuel depth : Nat} {document : Json S} {x : S}
    (h : readValue (fuel + 1) depth text = some (document, more))
    (hx : asNumber document = some x) :
    (∃ rest, skipSpaces text = '-' :: rest ∧ readNumber true rest = some (document, more)) ∨
      readNumber false (skipSpaces text) = some (document, more) := by
  rw [readValue] at h
  -- the first character decides what is read, and only two ways end in a number
  split at h
  · cases h
    cases hx
  · cases h
    cases hx
  · cases h
    cases hx
  · obtain ⟨⟨t, rest⟩, -, heq⟩ := Option.map_eq_some_iff.1 h
    cases t <;> cases heq <;> cases hx
  · rename_i rest hs
    exact Or.inl ⟨rest, hs, h⟩
  · split at h
    · split at h <;> cases h <;> cases hx
    · obtain ⟨⟨items, rest⟩, -, heq⟩ := Option.map_eq_some_iff.1 h
      change (if depth = 0 then unreadable else array items, rest) = _ at heq
      split at heq <;> cases heq <;> cases hx
  · split at h
    · split at h <;> cases h <;> cases hx
    · obtain ⟨⟨fields, rest⟩, -, heq⟩ := Option.map_eq_some_iff.1 h
      change (if depth = 0 then unreadable else objectOf fields, rest) = _ at heq
      rw [objectOf] at heq
      split at heq
      · cases heq
        cases hx
      · split at heq <;> cases heq <;> cases hx
  · exact Or.inr h

/-! ### Integers -/

theorem digitsValue_toDigits (n : Nat) : digitsValue (Nat.toDigits 10 n) = n :=
  Nat.ofDigitChars_ten_toDigits

/-- Only zero is written with a zero in front. -/
theorem head?_toDigits {n : Nat} (h : n ≠ 0) : (Nat.toDigits 10 n).head? ≠ some '0' := by
  induction n using Nat.strongRecOn with
  | ind n ih =>
    rw [Nat.toDigits_eq_if (by omega)]
    split
    · rename_i hlt
      have hdigit : ∀ n < 10, n ≠ 0 → Nat.digitChar n ≠ '0' := by decide
      simpa using hdigit n hlt h
    · have hquot : n / 10 ≠ 0 := by omega
      rw [List.head?_append_of_ne_nil _ Nat.toDigits_ne_nil]
      exact ih (n / 10) (by omega) hquot

theorem wholePart_toDigits (n : Nat) (hrest : Ends rest) :
    wholePart (Nat.toDigits 10 n ++ rest) = some (Nat.toDigits 10 n, rest) := by
  have hdigits : digits (Nat.toDigits 10 n ++ rest) = some (Nat.toDigits 10 n, rest) :=
    digits_eq_some_iff.2 ⟨rfl, Nat.toDigits_ne_nil,
      fun c hc => Nat.isDigit_of_mem_toDigits (by omega) (by omega) hc, fun c hc => (hrest c hc).1⟩
  have hfront : ((Nat.toDigits 10 n).length = 1 ||
      (Nat.toDigits 10 n).head? != some '0') = true := by
    by_cases hn : n = 0
    · subst hn
      rfl
    · simp [head?_toDigits hn]
  rw [wholePart, hdigits]
  simp only [Option.bind_eq_bind, Option.bind_some, hfront]
  rfl

/-- **An integer as it is read**: as one when it can be kept, and as the nearest number
otherwise. -/
def integer (i : Int) : Json S :=
  if leastInteger ≤ i ∧ i ≤ greatestInteger then int i else nearest (i < 0) i.natAbs 0

/-- **The digits of an integer are read as that integer.** -/
theorem readNumber_toDigits {negative : Bool} {n : Nat} (hneg : negative = true → n ≠ 0)
    (hrest : Ends rest) : readNumber (S := S) negative (Nat.toDigits 10 n ++ rest) =
      some (integer (if negative then -n else n), rest) := by
  unfold readNumber integer
  rw [wholePart_toDigits n hrest]
  simp only [Option.bind_eq_bind, Option.bind_some, fractionPart_of_ends hrest,
    exponentPart_of_ends hrest, List.append_nil, digitsValue_toDigits]
  cases negative with
  | false =>
    have hsign : decide ((n : Int) < 0) = false := by simp
    simp [hsign]
  | true =>
    have hzero : (n == 0) = false := beq_eq_false_iff_ne.2 (hneg rfl)
    have hsign : decide (0 < n) = true := by simpa using Nat.pos_of_ne_zero (hneg rfl)
    simp [hzero, hsign]

/-- **An integer is read back.** -/
theorem readValue_toString {fuel depth : Nat} (i : Int) (hrest : Ends rest) :
    readValue (S := S) (fuel + 1) depth ((toString i).toList ++ rest) =
      some (integer i, rest) := by
  cases i with
  | ofNat n =>
    change readValue (fuel + 1) depth (n.repr.toList ++ rest) = some (integer (n : Int), rest)
    rw [Nat.toList_repr]
    have hread : readNumber (S := S) false (Nat.toDigits 10 n ++ rest) =
        some (integer (n : Int), rest) := readNumber_toDigits nofun hrest
    obtain ⟨c, cs, heq, hc⟩ := head?_of_readNumber hread
    rw [heq, readValue_digit (skipSpaces_cons (isSpace_of_isDigit hc)) hc, ← heq]
    exact hread
  | negSucc n =>
    change readValue (fuel + 1) depth (("-" ++ (n + 1).repr).toList ++ rest) = _
    rw [String.toList_append, Nat.toList_repr]
    change readValue (fuel + 1) depth ('-' :: (Nat.toDigits 10 (n + 1) ++ rest)) = _
    rw [readValue_minus (skipSpaces_cons rfl)]
    exact readNumber_toDigits (fun _ => Nat.succ_ne_zero n) hrest

/-! ### Numbers that are no integers -/

end Json

/-- **A finite number**: neither an infinity nor a not-a-number. -/
def Numeral.Finite {S : Type} [Numeral S] (x : S) : Prop :=
  ∃ negative mantissa exponent, Numeral.toDyadic x = .finite negative mantissa exponent

instance {S : Type} [Numeral S] (x : S) : Decidable (Numeral.Finite x) :=
  match h : Numeral.toDyadic x with
  | .finite negative mantissa exponent => isTrue ⟨negative, mantissa, exponent, h⟩
  | .nan | .infinite _ => isFalse (by simp [Numeral.Finite, h])

namespace Json

/-- **What is printed is read**: the text of every finite number is read as that number. -/
def Rereads (S : Type) [Numeral S] : Prop :=
  ∀ x : S, Numeral.Finite x → read (numberText x) = some (.float x)

variable {text rest ds more : List Char} {S : Type} [Numeral S]

/-- What is not finite is written as `null`. -/
theorem numberText_of_not_finite {x : S} (h : ¬Numeral.Finite x) : numberText x = "null" := by
  rw [numberText]
  split
  · rfl
  · rfl
  · rename_i d hnan hinf
    exfalso
    rcases hd : Numeral.toDyadic x with _ | _ | ⟨negative, mantissa, exponent⟩
    · exact hnan hd
    · exact hinf _ hd
    · exact h ⟨negative, mantissa, exponent, hd⟩

/-- **A number that is read as it is printed is so wherever it stands**, up to spaces after it. -/
theorem readValue_numberText {fuel depth : Nat} {x : S}
    (h : read (numberText x) = some (.float x)) (hrest : Ends rest) :
    ∃ spaces, skipSpaces spaces = [] ∧
      readValue (fuel + 1) depth ((numberText x).toList ++ rest) =
        some (.float x, spaces ++ rest) := by
  rw [read] at h
  simp only [Option.bind_eq_bind, Option.bind_eq_some_iff] at h
  obtain ⟨⟨document, spaces⟩, hvalue, u, hguard, heq⟩ := h
  obtain rfl : document = .float x := by simpa using heq
  have hspaces : skipSpaces spaces = [] := by
    by_contra hne
    simp [hne] at hguard
  refine ⟨spaces, hspaces, ?_⟩
  rcases readNumber_of_readValue hvalue rfl with ⟨t, hs, ht⟩ | ht
  · rw [readValue_minus (skipSpaces_append_of_cons hs)]
    exact readNumber_append ht hrest
  · obtain ⟨c, t, hs, hc⟩ := head?_of_readNumber ht
    rw [readValue_digit (skipSpaces_append_of_cons hs) hc]
    rw [hs] at ht
    exact readNumber_append ht hrest

end Json

end GraphReasoner
