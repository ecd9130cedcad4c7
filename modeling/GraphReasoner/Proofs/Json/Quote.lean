import GraphReasoner.Json.Printer
import GraphReasoner.Json.Reader

/-!
# Quoted texts are read back

`GraphReasoner.Json.quote` escapes every character that must not stand in a quoted text, and the
reader undoes one escape at a time (`GraphReasoner.Json.readQuoted_escape`). So a quoted text is
read back as it was, and what follows its closing quote is left
(`GraphReasoner.Json.readText_quote`).
-/

namespace GraphReasoner.Json

/-- The two hexadecimal digits of a number below 256 are read back. -/
theorem readHex_digits {n : Nat} (h : n < 32) (rest : List Char) :
    readHex ('0' :: '0' :: Nat.digitChar (n / 16) :: Nat.digitChar (n % 16) :: rest) =
      some (n, rest) := by
  have hhex : ∀ n < 32, (readHex.hexValue (Nat.digitChar (n / 16)) = some (n / 16)) ∧
      readHex.hexValue (Nat.digitChar (n % 16)) = some (n % 16) := by decide
  have hzero : readHex.hexValue '0' = some 0 := by decide
  obtain ⟨hhigh, hlow⟩ := hhex n h
  simp only [readHex, hzero, hhigh, hlow, Option.pure_def, Option.bind_eq_bind, Option.bind_some]
  congr 2
  omega

/-- The escape of a control character is read as that character. -/
theorem readUnicode_digits {c : Char} (h : c.toNat < 32) (rest : List Char) :
    readUnicode ('0' :: '0' :: Nat.digitChar (c.toNat / 16) :: Nat.digitChar (c.toNat % 16) ::
      rest) = some (some c, rest) := by
  rw [readUnicode, readHex_digits h]
  have hhigh : ¬(0xd800 ≤ c.toNat) := by omega
  have hlow : ¬(0xdc00 ≤ c.toNat) := by omega
  simp [hhigh, hlow, Char.ofNat_toNat]

/-- **An escaped character is read back in one step.** -/
theorem readQuoted_escape (fuel : Nat) (sofar : List Char) (c : Char) (rest : List Char) :
    readQuoted (fuel + 1) (some sofar) (escape c ++ rest) =
      readQuoted fuel (some (c :: sofar)) rest := by
  unfold escape
  split
  · rfl
  · rfl
  · rfl
  · rfl
  · rfl
  · rename_i hquote hslash _ _ _
    -- two more characters have a letter of their own, and the others below a blank have a number
    split
    · rename_i h8
      have hc : c = Char.ofNat 8 := by rw [← h8, Char.ofNat_toNat]
      subst hc
      rfl
    split
    · rename_i h12
      have hc : c = Char.ofNat 12 := by rw [← h12, Char.ofNat_toNat]
      subst hc
      rfl
    split
    · rename_i h32
      simp only [List.cons_append, List.nil_append, readQuoted, readUnicode_digits h32,
        Option.map_some]
    · -- the character stands for itself, being neither a quote nor a backslash
      rename_i h32
      have hc : (decide (c.toNat < 32) || c == '\\') = false := by
        simp only [Bool.or_eq_false_iff, decide_eq_false_iff_not, beq_eq_false_iff_ne]
        exact ⟨h32, fun h => hslash h⟩
      rw [List.singleton_append, readQuoted]
      · rw [hc]
        rfl
      · exact hquote
      · exact fun _ h => absurd h hslash
      · exact fun _ _ h => absurd h hslash

theorem length_escape_pos (c : Char) : 0 < (escape c).length := by
  unfold escape
  split
  iterate 5 exact Nat.succ_pos _
  split
  · exact Nat.succ_pos _
  split
  · exact Nat.succ_pos _
  split <;> exact Nat.succ_pos _

theorem length_le_flatMap_escape (cs : List Char) : cs.length ≤ (cs.flatMap escape).length := by
  induction cs with
  | nil => exact Nat.le_refl 0
  | cons c cs ih =>
    have := length_escape_pos c
    rw [List.flatMap_cons, List.length_append, List.length_cons]
    omega

theorem readQuoted_flatMap_escape {fuel : Nat} {cs : List Char} (h : cs.length < fuel)
    (sofar rest : List Char) :
    readQuoted fuel (some sofar) (cs.flatMap escape ++ '"' :: rest) =
      some (some (String.ofList (sofar.reverse ++ cs)), rest) := by
  induction cs generalizing fuel sofar with
  | nil =>
    obtain ⟨fuel, rfl⟩ := Nat.exists_eq_succ_of_ne_zero (Nat.ne_of_gt h)
    simp [readQuoted]
  | cons c cs ih =>
    obtain ⟨fuel, rfl⟩ := Nat.exists_eq_succ_of_ne_zero (Nat.ne_of_gt (Nat.zero_lt_of_lt h))
    rw [List.flatMap_cons, List.append_assoc, readQuoted_escape,
      ih (by simpa using Nat.lt_of_succ_lt_succ h)]
    simp

/-- **A quoted text is read back.** -/
theorem readText_quote (text : String) (rest : List Char) :
    readText (text.toList.flatMap escape ++ '"' :: rest) = some (some text, rest) := by
  have hfuel : text.toList.length <
      (text.toList.flatMap escape ++ '"' :: rest).length + 1 := by
    have := length_le_flatMap_escape text.toList
    rw [List.length_append]
    omega
  rw [readText, readQuoted_flatMap_escape hfuel, List.reverse_nil, List.nil_append,
    String.ofList_toList]

theorem toList_quote (text : String) :
    (quote text).toList = '"' :: (text.toList.flatMap escape ++ ['"']) := by
  rw [quote, String.toList_ofList]
  rfl

end GraphReasoner.Json
